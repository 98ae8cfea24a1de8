import MaharitDb.Core.ConcurrentGraphContent
import MaharitDb.Lib.GuardedRun

/-!
# The representation of the concurrent graph along runs

What the reading operations of a concurrent graph promise after any sequence of writing operations,
and which calls break the promise.  Storing a node or an edge under an id in use replaces the element
but not its entries in the auxiliary maps, the empty label is entered into the label index only, and
the id counters wrap around.  These are the only ways.
-/

namespace Maharit

open GuardedRun

/-- The greatest id. -/
def maxId : UInt64 := 18446744073709551615

lemma lt_add_one_of_ne_maxId {a : UInt64} (h : a ≠ maxId) : a < a + 1 := by
  have h' : a.toNat ≠ 18446744073709551615 := fun e => h (UInt64.toNat_inj.mp e)
  have hlt := a.toNat_lt
  rw [UInt64.lt_iff_toNat_lt, UInt64.toNat_add]
  simp
  omega

lemma maxId_add_one : maxId + 1 = 0 := rfl

lemma le_maxId (a : UInt64) : a ≤ maxId := by
  have hlt := a.toNat_lt
  rw [UInt64.le_iff_toNat_le]
  change a.toNat ≤ 18446744073709551615
  omega

/-- A graph with the ids its elements were ever stored under. -/
structure GraphHistory where
  graph : ConcurrentGraph
  usedNodes : List NodeId
  usedEdges : List EdgeId

namespace GraphHistory

open ConcurrentGraph

/-- Nothing happened yet. -/
def new : GraphHistory := ⟨.new, [], []⟩

/-- The id under which a call stores a node. -/
def nodeStored (g : ConcurrentGraph) : WriteCall → List NodeId
  | .createNodeWithLabels _ => [g.nextNodeId]
  | .restoreNode id _ => [id]
  | _ => []

/-- The id under which a call stores an edge. -/
def edgeStored (g : ConcurrentGraph) : WriteCall → List EdgeId
  | .createEdge fromNode toNode _ => if fromNode ∈ g.nodes ∧ toNode ∈ g.nodes then [g.nextEdgeId] else []
  | .restoreEdge id fromNode toNode _ => if fromNode ∈ g.nodes ∧ toNode ∈ g.nodes then [id] else []
  | _ => []

/-- One call. -/
def step (h : GraphHistory) (c : WriteCall) : GraphHistory where
  graph := c.apply h.graph
  usedNodes := nodeStored h.graph c ++ h.usedNodes
  usedEdges := edgeStored h.graph c ++ h.usedEdges

/-- What the reading operations promise. -/
structure Represents (h : GraphHistory) : Prop where
  nodesByLabel : ∀ l id, id ∈ GraphBackend.nodesByLabel h.graph l ↔
    ∃ n, GraphBackend.getNode h.graph id = some n ∧ l ∈ n.labels
  outgoing : ∀ n id, id ∈ h.graph.getOutgoingEdges n ↔
    ∃ e, GraphBackend.getEdge h.graph id = some e ∧ e.fromNode = n
  incoming : ∀ n id, id ∈ h.graph.getIncomingEdges n ↔
    ∃ e, GraphBackend.getEdge h.graph id = some e ∧ e.toNode = n
  endpoints : ∀ id e, GraphBackend.getEdge h.graph id = some e →
    GraphBackend.containsNode h.graph e.fromNode = true ∧
      GraphBackend.containsNode h.graph e.toNode = true
  nodeCount : GraphBackend.nodeCount h.graph = {id | GraphBackend.containsNode h.graph id = true}.ncard
  edgeCount : GraphBackend.edgeCount h.graph = {id | ∃ e, GraphBackend.getEdge h.graph id = some e}.ncard
  /-- A node created next gets an id above all used ones. -/
  freshNode : ∀ labels, ∀ id ∈ h.usedNodes, id < (GraphBackend.createNodeWithLabels h.graph labels).2
  /-- An edge created next gets an id above all used ones. -/
  freshEdge : ∀ fromNode toNode label id',
    (GraphBackend.createEdge h.graph fromNode toNode label).2 = .ok id' → ∀ id ∈ h.usedEdges, id < id'

/-- The calls that keep the promise in a state. -/
def Keeps (h : GraphHistory) : WriteCall → Prop
  | .createNodeWithLabels _ => h.graph.nextNodeId ≠ maxId
  | .createEdge fromNode toNode _ =>
      fromNode ∈ h.graph.nodes → toNode ∈ h.graph.nodes → h.graph.nextEdgeId ≠ maxId
  | .addNodeLabel id label => ∀ n, h.graph.nodes.lookup id = some n → label = "" → "" ∈ n.labels
  | .restoreNode id labels =>
      id ≠ maxId ∧ ∀ n, h.graph.nodes.lookup id = some n → ∀ l ∈ n.labels, l ∈ labels
  | .restoreEdge id fromNode toNode _ =>
      fromNode ∈ h.graph.nodes → toNode ∈ h.graph.nodes →
        id ≠ maxId ∧ ∀ e, h.graph.edges.lookup id = some e → e.fromNode = fromNode ∧ e.toNode = toNode
  | _ => True

/-- The invariant behind the promise. -/
structure Inv (h : GraphHistory) : Prop where
  consistent : h.graph.Consistent
  nodes : ∀ id ∈ h.graph.nodes, id ∈ h.usedNodes
  edges : ∀ id ∈ h.graph.edges, id ∈ h.usedEdges
  nextNode : ∀ id ∈ h.usedNodes, id < h.graph.nextNodeId
  nextEdge : ∀ id ∈ h.usedEdges, id < h.graph.nextEdgeId

lemma inv_new : new.Inv where
  consistent := consistent_new
  nodes := fun _ hid => (AList.notMem_empty _ hid).elim
  edges := fun _ hid => (AList.notMem_empty _ hid).elim
  nextNode := by simp [new]
  nextEdge := by simp [new]

/-- The number of entries of a map is the number of its keys. -/
lemma length_entries_eq_ncard {K V : Type} (m : HashMap K V) : m.entries.length = {k | k ∈ m}.ncard := by
  classical
  have hset : {k | k ∈ m} = (m.keys.toFinset : Set K) := by
    ext k
    simp [AList.mem_keys]
  rw [hset, Set.ncard_coe_finset, List.toFinset_card_of_nodup (AList.keys_nodup m)]
  simp [AList.keys, List.keys]

theorem Inv.represents {h : GraphHistory} (hh : h.Inv) : h.Represents where
  nodesByLabel := hh.consistent.labelIndex
  outgoing := hh.consistent.outgoing
  incoming := hh.consistent.incoming
  endpoints id e he := by
    have hends := hh.consistent.endpoints id e he
    exact ⟨decide_eq_true hends.1, decide_eq_true hends.2⟩
  nodeCount := by
    refine (length_entries_eq_ncard h.graph.nodes).trans (congrArg Set.ncard ?_)
    ext id
    exact (decide_eq_true_iff).symm
  edgeCount := by
    refine (length_entries_eq_ncard h.graph.edges).trans (congrArg Set.ncard ?_)
    ext id
    exact HashMap.mem_iff_exists _ _
  freshNode _ := hh.nextNode
  freshEdge fromNode toNode label id' hid' := by
    have hnext : id' = h.graph.nextEdgeId := by
      simp only [GraphBackend.createEdge, ConcurrentGraph.createEdge] at hid'
      split at hid'
      · cases hid'
      · split at hid'
        · cases hid'
        · exact (Except.ok.inj hid').symm
    rw [hnext]
    exact hh.nextEdge

/-! ## Calls that store nothing -/

/-- A loop that keeps the counters in each round keeps them. -/
lemma counters_foldl {f : ConcurrentGraph → EdgeId → ConcurrentGraph}
    (hf : ∀ g e, (f g e).nextNodeId = g.nextNodeId ∧ (f g e).nextEdgeId = g.nextEdgeId)
    (g : ConcurrentGraph) (es : List EdgeId) :
    (es.foldl f g).nextNodeId = g.nextNodeId ∧ (es.foldl f g).nextEdgeId = g.nextEdgeId := by
  induction es generalizing g with
  | nil => exact ⟨rfl, rfl⟩
  | cons e es ih => exact ⟨(ih _).1.trans (hf g e).1, (ih _).2.trans (hf g e).2⟩

/-- Deleting a node keeps the counters. -/
lemma counters_deleteNode (g : ConcurrentGraph) (id : NodeId) :
    (g.deleteNode id).1.nextNodeId = g.nextNodeId ∧ (g.deleteNode id).1.nextEdgeId = g.nextEdgeId := by
  unfold ConcurrentGraph.deleteNode
  cases g.nodes.lookup id with
  | none => exact ⟨rfl, rfl⟩
  | some n =>
    have hout : ∀ g e, (dropOutgoing g e).nextNodeId = g.nextNodeId ∧
        (dropOutgoing g e).nextEdgeId = g.nextEdgeId := by
      intro g e
      unfold dropOutgoing
      cases g.edges.lookup e <;> exact ⟨rfl, rfl⟩
    have hinc : ∀ g e, (dropIncoming g e).nextNodeId = g.nextNodeId ∧
        (dropIncoming g e).nextEdgeId = g.nextEdgeId := by
      intro g e
      unfold dropIncoming
      cases g.edges.lookup e <;> exact ⟨rfl, rfl⟩
    simp only [takeOutgoing, takeIncoming]
    exact ⟨(counters_foldl hinc _ _).1.trans (counters_foldl hout _ _).1,
      (counters_foldl hinc _ _).2.trans (counters_foldl hout _ _).2⟩

/-- A call that stores no element and keeps the graph consistent keeps the invariant. -/
lemma Inv.of_subset {h : GraphHistory} (hh : h.Inv) {g : ConcurrentGraph} (hg : g.Consistent)
    (hnodes : ∀ id ∈ g.nodes, id ∈ h.graph.nodes) (hedges : ∀ id ∈ g.edges, id ∈ h.graph.edges)
    (hnextNode : g.nextNodeId = h.graph.nextNodeId) (hnextEdge : g.nextEdgeId = h.graph.nextEdgeId) :
    Inv ⟨g, h.usedNodes, h.usedEdges⟩ where
  consistent := hg
  nodes id hid := hh.nodes id (hnodes id hid)
  edges id hid := hh.edges id (hedges id hid)
  nextNode id hid := hnextNode ▸ hh.nextNode id hid
  nextEdge id hid := hnextEdge ▸ hh.nextEdge id hid

lemma Inv.deleteNode {h : GraphHistory} (hh : h.Inv) (id : NodeId) :
    (h.step (.deleteNode id)).Inv := by
  change Inv ⟨(h.graph.deleteNode id).1, h.usedNodes, h.usedEdges⟩
  refine hh.of_subset (hh.consistent.deleteNode id) (fun m hm => ?_) (fun e he => ?_)
    (counters_deleteNode h.graph id).1 (counters_deleteNode h.graph id).2
  · have hcontent := content_nodes_isSome.mpr hm
    rw [hh.consistent.content_deleteNode id, PropertyGraph.deleteNode] at hcontent
    simp only [Function.update_apply] at hcontent
    split at hcontent
    · cases hcontent
    · exact content_nodes_isSome.mp hcontent
  · have hcontent := content_edges_isSome.mpr he
    rw [hh.consistent.content_deleteNode id, PropertyGraph.deleteNode] at hcontent
    refine content_edges_isSome.mp ?_
    obtain ⟨d, hd⟩ := Option.isSome_iff_exists.mp hcontent
    rw [Option.isSome_iff_exists]
    exact ⟨d, (Option.filter_eq_some_iff.mp hd).1⟩

lemma Inv.deleteEdge {h : GraphHistory} (hh : h.Inv) (id : EdgeId) :
    (h.step (.deleteEdge id)).Inv := by
  have hcases : (h.graph.deleteEdge id).1 = h.graph ∨ ∃ out inc, (h.graph.deleteEdge id).1 =
      { h.graph with edges := h.graph.edges.erase id, outgoing := out, incoming := inc } := by
    unfold ConcurrentGraph.deleteEdge
    cases h.graph.edges.lookup id with
    | none => exact .inl rfl
    | some e => exact .inr ⟨_, _, rfl⟩
  have hconsistent := hh.consistent.deleteEdge id
  change Inv ⟨(h.graph.deleteEdge id).1, h.usedNodes, h.usedEdges⟩
  rcases hcases with hsame | ⟨out, inc, herase⟩
  · rw [hsame]
    exact hh
  · refine hh.of_subset hconsistent ?_ ?_ ?_ ?_ <;> rw [herase]
    · exact fun m hm => hm
    · exact fun e he => (AList.mem_erase.mp he).2

/-- A change of one stored node or edge in place. -/
lemma mem_of_mem_modify {K V : Type} [DecidableEq K] {m : HashMap K V} {k k' : K} {f : V → V}
    (h : k' ∈ HashMap.modify m k f) : k' ∈ m :=
  (HashMap.mem_modify m k k' f).mp h

/-- Changing the labels of a stored node keeps the ids. -/
lemma mem_nodes_addNodeLabel {g : ConcurrentGraph} {id m : NodeId} {label : String}
    (hm : m ∈ (g.addNodeLabel id label).nodes) : m ∈ g.nodes := by
  unfold ConcurrentGraph.addNodeLabel at hm
  cases hn : g.nodes.lookup id with
  | none => rwa [hn] at hm
  | some n =>
    rw [hn] at hm
    simp only at hm
    split at hm
    · exact hm
    · rcases (AList.mem_insert _).mp hm with rfl | hm
      · exact (HashMap.mem_iff_exists _ _).mpr ⟨n, hn⟩
      · exact hm

lemma mem_nodes_removeNodeLabel {g : ConcurrentGraph} {id m : NodeId} {label : String}
    (hm : m ∈ (g.removeNodeLabel id label).nodes) : m ∈ g.nodes := by
  unfold ConcurrentGraph.removeNodeLabel at hm
  cases hn : g.nodes.lookup id with
  | none => rwa [hn] at hm
  | some n =>
    rw [hn] at hm
    simp only at hm
    split at hm
    · rcases (AList.mem_insert _).mp hm with rfl | hm
      · exact (HashMap.mem_iff_exists _ _).mpr ⟨n, hn⟩
      · exact hm
    · exact hm

/-- Adding or removing a label keeps the edges and the counters. -/
lemma addNodeLabel_rest (g : ConcurrentGraph) (id : NodeId) (label : String) :
    (g.addNodeLabel id label).edges = g.edges ∧
      (g.addNodeLabel id label).nextNodeId = g.nextNodeId ∧
        (g.addNodeLabel id label).nextEdgeId = g.nextEdgeId := by
  unfold ConcurrentGraph.addNodeLabel
  cases g.nodes.lookup id with
  | none => exact ⟨rfl, rfl, rfl⟩
  | some n =>
    simp only
    split <;> exact ⟨rfl, rfl, rfl⟩

lemma removeNodeLabel_rest (g : ConcurrentGraph) (id : NodeId) (label : String) :
    (g.removeNodeLabel id label).edges = g.edges ∧
      (g.removeNodeLabel id label).nextNodeId = g.nextNodeId ∧
        (g.removeNodeLabel id label).nextEdgeId = g.nextEdgeId := by
  unfold ConcurrentGraph.removeNodeLabel
  cases g.nodes.lookup id with
  | none => exact ⟨rfl, rfl, rfl⟩
  | some n =>
    simp only
    split <;> exact ⟨rfl, rfl, rfl⟩

lemma Inv.addNodeLabel {h : GraphHistory} (hh : h.Inv) {id : NodeId} {label : String}
    (hkeep : h.Keeps (.addNodeLabel id label)) : (h.step (.addNodeLabel id label)).Inv := by
  have hrest := addNodeLabel_rest h.graph id label
  have hconsistent : (h.graph.addNodeLabel id label).Consistent := by
    by_cases hlabel : label = ""
    · -- The empty label is ignored by a node that is absent or carries it.
      have hsame : h.graph.addNodeLabel id label = h.graph := by
        unfold ConcurrentGraph.addNodeLabel
        cases hn : h.graph.nodes.lookup id with
        | none => rfl
        | some n =>
          have hhas : n.hasLabel label = true := by
            rw [Node.hasLabel_iff, hlabel]
            exact hkeep n hn hlabel
          simp [hhas]
      rw [hsame]
      exact hh.consistent
    · exact hh.consistent.addNodeLabel id hlabel
  refine hh.of_subset hconsistent (fun m hm => mem_nodes_addNodeLabel hm) (fun e he => ?_) hrest.2.1
    hrest.2.2
  rwa [← hrest.1]

lemma Inv.removeNodeLabel {h : GraphHistory} (hh : h.Inv) (id : NodeId) (label : String) :
    (h.step (.removeNodeLabel id label)).Inv := by
  have hrest := removeNodeLabel_rest h.graph id label
  refine hh.of_subset (hh.consistent.removeNodeLabel id label)
    (fun m hm => mem_nodes_removeNodeLabel hm) (fun e he => ?_) hrest.2.1 hrest.2.2
  rwa [← hrest.1]

/-! ## Calls that store an element -/

/-- A graph that differs from a consistent one by one stored node, new or replaced, with the label
index following, is consistent. -/
lemma consistent_storeNode {g g' : ConcurrentGraph} (hg : g.Consistent) {id : NodeId} {n : Node}
    (hn : n.id = id) (hnodes : g'.nodes = g.nodes.insert id n) (hedges : g'.edges = g.edges)
    (hout : ∀ m, HashMap.getDefault g'.outgoing m = HashMap.getDefault g.outgoing m)
    (hinc : ∀ m, HashMap.getDefault g'.incoming m = HashMap.getDefault g.incoming m)
    (hix : ∀ l m, m ∈ HashMap.getDefault g'.labelIndex l ↔
      m = id ∧ l ∈ n.labels ∨ m ≠ id ∧ m ∈ HashMap.getDefault g.labelIndex l) : g'.Consistent where
  node_id := by
    intro m d hd
    rw [hnodes, HashMap.lookup_insert_ite] at hd
    split at hd
    · next hm =>
      rw [← Option.some.inj hd, hn, hm]
    · exact hg.node_id m d hd
  edge_id := by
    rw [hedges]
    exact hg.edge_id
  endpoints := by
    intro e c hc
    rw [hedges] at hc
    have hends := hg.endpoints e c hc
    rw [hnodes]
    exact ⟨(AList.mem_insert _).mpr (Or.inr hends.1), (AList.mem_insert _).mpr (Or.inr hends.2)⟩
  outgoing := by
    intro m e
    rw [hout, hedges]
    exact hg.outgoing m e
  incoming := by
    intro m e
    rw [hinc, hedges]
    exact hg.incoming m e
  labelIndex := by
    intro l m
    rw [hix, hnodes, hg.labelIndex, HashMap.lookup_insert_ite]
    by_cases hm : m = id
    · simp [hm]
    · simp [hm]

/-- Storing a node under a chosen id keeps the graph consistent when the node replaced, if any, has no
other labels. -/
lemma consistent_restoreNode {g : ConcurrentGraph} (hg : g.Consistent) {id : NodeId}
    {labels : List String} (hlabels : ∀ n, g.nodes.lookup id = some n → ∀ l ∈ n.labels, l ∈ labels) :
    (g.createNodeWithIdAndLabels id labels).1.Consistent := by
  refine consistent_storeNode hg (n := ⟨id, labels, ∅⟩) rfl rfl rfl
    (fun m => HashMap.getDefault_ensure _ _ _) (fun m => HashMap.getDefault_ensure _ _ _) fun l m => ?_
  refine (mem_labelIndexAdd _ _ _ _ _).trans ?_
  change m = id ∧ l ∈ labels ∨ m ∈ HashMap.getDefault g.labelIndex l ↔ _
  by_cases hm : m = id
  · subst hm
    rw [hg.labelIndex]
    constructor
    · rintro (h | ⟨n, hn, hl⟩)
      · exact .inl h
      · exact .inl ⟨rfl, hlabels n hn l hl⟩
    · rintro (h | h)
      · exact .inl h
      · exact absurd rfl h.1
  · simp [hm]

/-- Storing an edge between live nodes keeps the graph consistent when the edge replaced, if any, has
the same endpoints. -/
lemma consistent_insertEdge {g : ConcurrentGraph} (hg : g.Consistent) {id : EdgeId}
    {fromNode toNode : NodeId} (hfrom : fromNode ∈ g.nodes) (hto : toNode ∈ g.nodes) {label : String}
    (hends : ∀ e, g.edges.lookup id = some e → e.fromNode = fromNode ∧ e.toNode = toNode) :
    (g.insertEdge id fromNode toNode label).Consistent := by
  refine ⟨hg.node_id, ?_, ?_, ?_, ?_, hg.labelIndex⟩
  · intro e c hc
    simp only [insertEdge, HashMap.lookup_insert_ite] at hc
    split at hc
    · next he =>
      rw [← Option.some.inj hc, he]
    · exact hg.edge_id e c hc
  · intro e c hc
    simp only [insertEdge, HashMap.lookup_insert_ite] at hc
    split at hc
    · rw [← Option.some.inj hc]
      exact ⟨hfrom, hto⟩
    · exact hg.endpoints e c hc
  · intro m e
    simp only [insertEdge, HashSet.mem_modifyDefault_add, hg.outgoing, HashMap.lookup_insert_ite]
    by_cases he : e = id
    · subst he
      constructor
      · rintro (⟨rfl, -⟩ | ⟨c, hc, rfl⟩)
        · exact ⟨_, if_pos rfl, rfl⟩
        · exact ⟨_, if_pos rfl, (hends c hc).1.symm⟩
      · rintro ⟨c, hc, rfl⟩
        rw [if_pos rfl] at hc
        rw [← Option.some.inj hc]
        exact .inl ⟨rfl, rfl⟩
    · simp [he]
  · intro m e
    simp only [insertEdge, HashSet.mem_modifyDefault_add, hg.incoming, HashMap.lookup_insert_ite]
    by_cases he : e = id
    · subst he
      constructor
      · rintro (⟨rfl, -⟩ | ⟨c, hc, rfl⟩)
        · exact ⟨_, if_pos rfl, rfl⟩
        · exact ⟨_, if_pos rfl, (hends c hc).2.symm⟩
      · rintro ⟨c, hc, rfl⟩
        rw [if_pos rfl] at hc
        rw [← Option.some.inj hc]
        exact .inl ⟨rfl, rfl⟩
    · simp [he]

/-- A counter moves above the id it was advanced over, and stays above the others. -/
lemma lt_advance {next id : UInt64} (hid : id ≠ maxId) : id < advance next id := by
  unfold advance
  split
  · exact lt_add_one_of_ne_maxId hid
  · next hlt => exact UInt64.not_le.mp hlt

lemma le_advance {next id : UInt64} (hid : id ≠ maxId) : next ≤ advance next id := by
  unfold advance
  split
  · next hle => exact UInt64.le_of_lt (UInt64.lt_of_le_of_lt hle (lt_add_one_of_ne_maxId hid))
  · exact UInt64.le_refl _

lemma Inv.createNode {h : GraphHistory} (hh : h.Inv) {labels : List String}
    (hkeep : h.graph.nextNodeId ≠ maxId) : (h.step (.createNodeWithLabels labels)).Inv where
  consistent := by
    refine hh.consistent.createNodeWithLabels (fun hmem => ?_) labels
    exact UInt64.lt_irrefl _ (hh.nextNode _ (hh.nodes _ hmem))
  nodes id hid := by
    rcases (AList.mem_insert _).mp hid with rfl | hid
    · exact List.mem_cons_self
    · exact List.mem_cons_of_mem _ (hh.nodes id hid)
  edges := hh.edges
  nextNode id hid := by
    have hnext := lt_add_one_of_ne_maxId hkeep
    change id < h.graph.nextNodeId + 1
    rcases List.mem_cons.mp hid with rfl | hid
    · exact hnext
    · exact UInt64.lt_trans (hh.nextNode id hid) hnext
  nextEdge := hh.nextEdge

lemma Inv.restoreNode {h : GraphHistory} (hh : h.Inv) {id : NodeId} {labels : List String}
    (hkeep : h.Keeps (.restoreNode id labels)) : (h.step (.restoreNode id labels)).Inv where
  consistent := consistent_restoreNode hh.consistent hkeep.2
  nodes m hm := by
    rcases (AList.mem_insert _).mp hm with rfl | hm
    · exact List.mem_cons_self
    · exact List.mem_cons_of_mem _ (hh.nodes m hm)
  edges := hh.edges
  nextNode m hm := by
    change m < advance h.graph.nextNodeId id
    rcases List.mem_cons.mp hm with rfl | hm
    · exact lt_advance hkeep.1
    · exact UInt64.lt_of_lt_of_le (hh.nextNode m hm) (le_advance hkeep.1)
  nextEdge := hh.nextEdge

/-- The invariant after an edge was stored and the counter moved. -/
lemma Inv.insertEdge {h : GraphHistory} (hh : h.Inv) {id : EdgeId} {fromNode toNode : NodeId}
    {label : String} {next : UInt64} (hfrom : fromNode ∈ h.graph.nodes) (hto : toNode ∈ h.graph.nodes)
    (hends : ∀ e, h.graph.edges.lookup id = some e → e.fromNode = fromNode ∧ e.toNode = toNode)
    (hid : id < next) (hnext : h.graph.nextEdgeId ≤ next) :
    Inv ⟨ConcurrentGraph.insertEdge { h.graph with nextEdgeId := next } id fromNode toNode label,
      h.usedNodes, id :: h.usedEdges⟩ where
  consistent := by
    have hg : ({ h.graph with nextEdgeId := next } : ConcurrentGraph).Consistent :=
      hh.consistent.withCounters h.graph.nextNodeId next
    exact consistent_insertEdge hg hfrom hto hends
  nodes := hh.nodes
  edges e he := by
    rcases (AList.mem_insert _).mp he with rfl | he
    · exact List.mem_cons_self
    · exact List.mem_cons_of_mem _ (hh.edges e he)
  nextNode := hh.nextNode
  nextEdge e he := by
    change e < next
    rcases List.mem_cons.mp he with rfl | he
    · exact hid
    · exact UInt64.lt_of_lt_of_le (hh.nextEdge e he) hnext

lemma Inv.createEdge {h : GraphHistory} (hh : h.Inv) {fromNode toNode : NodeId} {label : String}
    (hkeep : h.Keeps (.createEdge fromNode toNode label)) :
    (h.step (.createEdge fromNode toNode label)).Inv := by
  unfold GraphHistory.step
  simp only [WriteCall.apply, GraphBackend.createEdge, ConcurrentGraph.createEdge, nodeStored, edgeStored,
    List.nil_append]
  by_cases hfrom : fromNode ∈ h.graph.nodes
  · by_cases hto : toNode ∈ h.graph.nodes
    · have hnext := lt_add_one_of_ne_maxId (hkeep hfrom hto)
      have hnew : ∀ e, h.graph.edges.lookup h.graph.nextEdgeId = some e →
          e.fromNode = fromNode ∧ e.toNode = toNode := by
        intro e he
        have hmem := hh.edges _ ((HashMap.mem_iff_exists _ _).mpr ⟨e, he⟩)
        exact absurd (hh.nextEdge _ hmem) (UInt64.lt_irrefl _)
      simp only [hfrom, hto, not_true_eq_false, if_false, and_self, if_true, List.singleton_append]
      exact hh.insertEdge hfrom hto hnew hnext (UInt64.le_of_lt hnext)
    · simpa [hfrom, hto] using hh
  · simpa [hfrom] using hh

lemma Inv.restoreEdge {h : GraphHistory} (hh : h.Inv) {id : EdgeId} {fromNode toNode : NodeId}
    {label : String} (hkeep : h.Keeps (.restoreEdge id fromNode toNode label)) :
    (h.step (.restoreEdge id fromNode toNode label)).Inv := by
  unfold GraphHistory.step
  simp only [WriteCall.apply, GraphBackend.restoreEdge, ConcurrentGraph.createEdgeWithId, nodeStored,
    edgeStored, List.nil_append]
  by_cases hfrom : fromNode ∈ h.graph.nodes
  · by_cases hto : toNode ∈ h.graph.nodes
    · obtain ⟨hid, hends⟩ := hkeep hfrom hto
      simp only [hfrom, hto, not_true_eq_false, if_false, and_self, if_true, List.singleton_append]
      exact hh.insertEdge hfrom hto hends (lt_advance hid) (le_advance hid)
    · simpa [hfrom, hto] using hh
  · simpa [hfrom] using hh

/-- A call that keeps the promise keeps the invariant. -/
theorem Inv.step {h : GraphHistory} (hh : h.Inv) {c : WriteCall} (hkeep : h.Keeps c) :
    (h.step c).Inv := by
  have hmodify : ∀ (id : NodeId) (f : Node → Node),
      ({ h.graph with nodes := HashMap.modify h.graph.nodes id f } : ConcurrentGraph).Consistent →
      Inv ⟨{ h.graph with nodes := HashMap.modify h.graph.nodes id f }, h.usedNodes, h.usedEdges⟩ :=
    fun id f hg => hh.of_subset hg (fun _ hm => mem_of_mem_modify hm) (fun _ he => he) rfl rfl
  have hmodify' : ∀ (id : EdgeId) (f : Edge → Edge),
      ({ h.graph with edges := HashMap.modify h.graph.edges id f } : ConcurrentGraph).Consistent →
      Inv ⟨{ h.graph with edges := HashMap.modify h.graph.edges id f }, h.usedNodes, h.usedEdges⟩ :=
    fun id f hg => hh.of_subset hg (fun _ hm => hm) (fun _ he => mem_of_mem_modify he) rfl rfl
  cases c with
  | createNodeWithLabels labels => exact hh.createNode hkeep
  | createEdge fromNode toNode label => exact hh.createEdge hkeep
  | deleteNode id => exact hh.deleteNode id
  | deleteEdge id => exact hh.deleteEdge id
  | setNodeProperty id key value => exact hmodify id _ (hh.consistent.setNodeProperty id key value)
  | removeNodeProperty id key => exact hmodify id _ (hh.consistent.removeNodeProperty id key)
  | addNodeLabel id label => exact hh.addNodeLabel hkeep
  | removeNodeLabel id label => exact hh.removeNodeLabel id label
  | setEdgeProperty id key value => exact hmodify' id _ (hh.consistent.setEdgeProperty id key value)
  | removeEdgeProperty id key => exact hmodify' id _ (hh.consistent.removeEdgeProperty id key)
  | restoreNode id labels => exact hh.restoreNode hkeep
  | restoreEdge id fromNode toNode label => exact hh.restoreEdge hkeep

/-! ## Calls that break the promise -/

/-- Advancing a counter over the greatest id wraps it around. -/
lemma advance_maxId (next : UInt64) : advance next maxId = 0 := by
  unfold advance
  rw [if_pos (le_maxId next), maxId_add_one]

lemma not_lt_zero (a : UInt64) : ¬a < 0 := by
  rw [UInt64.lt_iff_toNat_lt]
  exact Nat.not_lt_zero _

/-- A history whose node counter is back at zero hands out ids that are not fresh. -/
lemma Represents.nextNode_ne_zero {h : GraphHistory} (hr : h.Represents) (id : NodeId)
    (hid : id ∈ h.usedNodes) : h.graph.nextNodeId ≠ 0 := by
  intro hzero
  have hlt : id < h.graph.nextNodeId := hr.freshNode [] id hid
  rw [hzero] at hlt
  exact not_lt_zero _ hlt

lemma Represents.nextEdge_ne_zero {h : GraphHistory} (hr : h.Represents) (fromNode toNode : NodeId)
    (hfrom : fromNode ∈ h.graph.nodes) (hto : toNode ∈ h.graph.nodes) {id : EdgeId}
    (hid : id ∈ h.usedEdges) : h.graph.nextEdgeId ≠ 0 := by
  intro hzero
  have hok : (GraphBackend.createEdge h.graph fromNode toNode "").2 = .ok h.graph.nextEdgeId := by
    simp [GraphBackend.createEdge, ConcurrentGraph.createEdge, hfrom, hto]
  have hlt := hr.freshEdge fromNode toNode "" _ hok id hid
  rw [hzero] at hlt
  exact not_lt_zero _ hlt

lemma keeps_createNode {h : GraphHistory} {labels : List String}
    (hr : (h.step (.createNodeWithLabels labels)).Represents) : h.graph.nextNodeId ≠ maxId := by
  intro hmax
  refine hr.nextNode_ne_zero h.graph.nextNodeId List.mem_cons_self ?_
  change h.graph.nextNodeId + 1 = 0
  rw [hmax, maxId_add_one]

lemma keeps_createEdge {h : GraphHistory} {fromNode toNode : NodeId} {label : String}
    (hr : (h.step (.createEdge fromNode toNode label)).Represents) :
    h.Keeps (.createEdge fromNode toNode label) := by
  intro hfrom hto hmax
  have hgraph : (h.step (.createEdge fromNode toNode label)).graph =
      ConcurrentGraph.insertEdge { h.graph with nextEdgeId := h.graph.nextEdgeId + 1 }
        h.graph.nextEdgeId fromNode toNode label := by
    simp [GraphHistory.step, WriteCall.apply, GraphBackend.createEdge, ConcurrentGraph.createEdge, hfrom,
      hto]
  have hused : h.graph.nextEdgeId ∈ (h.step (.createEdge fromNode toNode label)).usedEdges := by
    simp [GraphHistory.step, edgeStored, hfrom, hto]
  refine hr.nextEdge_ne_zero fromNode toNode ?_ ?_ hused ?_ <;> rw [hgraph]
  · exact hfrom
  · exact hto
  · change h.graph.nextEdgeId + 1 = 0
    rw [hmax, maxId_add_one]

lemma keeps_addNodeLabel {h : GraphHistory} {id : NodeId} {label : String}
    (hr : (h.step (.addNodeLabel id label)).Represents) : h.Keeps (.addNodeLabel id label) := by
  rintro n hn rfl
  by_contra hnot
  have hhas : n.hasLabel "" = false := by
    rw [Bool.eq_false_iff, ne_eq, Node.hasLabel_iff]
    exact hnot
  -- The node is stored as it was, but entered under the empty label.
  have hgraph : (h.step (.addNodeLabel id "")).graph =
      { h.graph with
        nodes := h.graph.nodes.insert id n
        labelIndex := HashMap.modifyDefault h.graph.labelIndex "" (HashSet.add · id) } := by
    simp [GraphHistory.step, WriteCall.apply, GraphBackend.addNodeLabel, ConcurrentGraph.addNodeLabel,
      hn, hhas, Node.addLabel]
  have hlisted : id ∈ GraphBackend.nodesByLabel (h.step (.addNodeLabel id "")).graph "" := by
    rw [hgraph]
    exact (HashSet.mem_modifyDefault_add _ _ _ _ _).mpr (.inl ⟨rfl, rfl⟩)
  obtain ⟨n', hn', hmem⟩ := (hr.nodesByLabel "" id).mp hlisted
  rw [hgraph] at hn'
  have hsame : n' = n := by
    have hlookup : (h.graph.nodes.insert id n).lookup id = some n' := hn'
    rw [AList.lookup_insert] at hlookup
    exact (Option.some.inj hlookup).symm
  rw [hsame] at hmem
  exact hnot hmem

lemma keeps_restoreNode {h : GraphHistory} (hh : h.Inv) {id : NodeId} {labels : List String}
    (hr : (h.step (.restoreNode id labels)).Represents) : h.Keeps (.restoreNode id labels) := by
  constructor
  · rintro rfl
    exact hr.nextNode_ne_zero maxId List.mem_cons_self (advance_maxId _)
  · intro n hn l hl
    -- The index entry of an old label stays.
    have hlisted : id ∈ GraphBackend.nodesByLabel (h.step (.restoreNode id labels)).graph l :=
      (mem_labelIndexAdd _ _ _ _ _).mpr (.inr ((hh.consistent.labelIndex l id).mpr ⟨n, hn, hl⟩))
    obtain ⟨n', hn', hmem⟩ := (hr.nodesByLabel l id).mp hlisted
    have hlookup : (h.graph.nodes.insert id ⟨id, labels, ∅⟩).lookup id = some n' := hn'
    rw [AList.lookup_insert] at hlookup
    rw [← Option.some.inj hlookup] at hmem
    exact hmem

lemma keeps_restoreEdge {h : GraphHistory} (hh : h.Inv) {id : EdgeId} {fromNode toNode : NodeId}
    {label : String} (hr : (h.step (.restoreEdge id fromNode toNode label)).Represents) :
    h.Keeps (.restoreEdge id fromNode toNode label) := by
  intro hfrom hto
  have hgraph : (h.step (.restoreEdge id fromNode toNode label)).graph =
      ConcurrentGraph.insertEdge { h.graph with nextEdgeId := advance h.graph.nextEdgeId id }
        id fromNode toNode label := by
    simp [GraphHistory.step, WriteCall.apply, GraphBackend.restoreEdge, ConcurrentGraph.createEdgeWithId,
      hfrom, hto]
  have hused : id ∈ (h.step (.restoreEdge id fromNode toNode label)).usedEdges := by
    simp [GraphHistory.step, edgeStored, hfrom, hto]
  have hstored : ∀ e', GraphBackend.getEdge (h.step (.restoreEdge id fromNode toNode label)).graph id =
      some e' → e'.fromNode = fromNode ∧ e'.toNode = toNode := by
    intro e' he'
    rw [hgraph] at he'
    have hlookup : (h.graph.edges.insert id ⟨id, label, fromNode, toNode, ∅⟩).lookup id = some e' := he'
    rw [AList.lookup_insert] at hlookup
    rw [← Option.some.inj hlookup]
    exact ⟨rfl, rfl⟩
  constructor
  · rintro rfl
    refine hr.nextEdge_ne_zero fromNode toNode ?_ ?_ hused ?_ <;> rw [hgraph]
    · exact hfrom
    · exact hto
    · exact advance_maxId _
  · -- The adjacency entries of the edge replaced stay.
    intro e he
    have hout : id ∈ (h.step (.restoreEdge id fromNode toNode label)).graph.getOutgoingEdges
        e.fromNode := by
      rw [hgraph]
      exact (HashSet.mem_modifyDefault_add _ _ _ _ _).mpr
        (.inr ((hh.consistent.outgoing _ _).mpr ⟨e, he, rfl⟩))
    have hinc : id ∈ (h.step (.restoreEdge id fromNode toNode label)).graph.getIncomingEdges
        e.toNode := by
      rw [hgraph]
      exact (HashSet.mem_modifyDefault_add _ _ _ _ _).mpr
        (.inr ((hh.consistent.incoming _ _).mpr ⟨e, he, rfl⟩))
    obtain ⟨e₁, he₁, hfrom₁⟩ := (hr.outgoing _ _).mp hout
    obtain ⟨e₂, he₂, hto₂⟩ := (hr.incoming _ _).mp hinc
    exact ⟨hfrom₁.symm.trans (hstored e₁ he₁).1, hto₂.symm.trans (hstored e₂ he₂).2⟩

/-- The guard excludes only calls that break the promise. -/
theorem keeps_of_represents {h : GraphHistory} (hh : h.Inv) {c : WriteCall}
    (hr : (h.step c).Represents) : h.Keeps c := by
  cases c with
  | createNodeWithLabels labels => exact keeps_createNode hr
  | createEdge fromNode toNode label => exact keeps_createEdge hr
  | addNodeLabel id label => exact keeps_addNodeLabel hr
  | restoreNode id labels => exact keeps_restoreNode hh hr
  | restoreEdge id fromNode toNode label => exact keeps_restoreEdge hh hr
  | deleteNode | deleteEdge | setNodeProperty | removeNodeProperty | removeNodeLabel | setEdgeProperty
  | removeEdgeProperty => trivial

end GraphHistory

/-- The reading operations of a concurrent graph keep their promise in every state of a sequence of
writing operations exactly when each of the calls meets the guard in the state it meets. -/
theorem concurrentGraph_represents_iff (calls : List WriteCall) :
    (∀ pre, pre <+: calls → (pre.foldl GraphHistory.step .new).Represents) ↔
      Along GraphHistory.step GraphHistory.Keeps .new calls :=
  have hgood : ∀ h : GraphHistory, h.Inv → h.Represents := fun _ hh => hh.represents
  have hkeep : ∀ (h : GraphHistory) (c : WriteCall), h.Inv → h.Keeps c → (h.step c).Inv :=
    fun _ _ hh hkeep => hh.step hkeep
  have hexact : ∀ (h : GraphHistory) (c : WriteCall), h.Inv → (h.step c).Represents → h.Keeps c :=
    fun _ _ hh hr => GraphHistory.keeps_of_represents hh hr
  forall_prefix_iff_along hgood hkeep hexact GraphHistory.inv_new

/-- Replaying a node record under an id in use leaves the old label in the index. -/
theorem concurrentGraph_restoreNode_keeps_label :
    ¬∀ calls : List WriteCall, (calls.foldl GraphHistory.step .new).Represents := by
  intro hall
  have hr := hall [.createNodeWithLabels ["A"], .restoreNode 0 ["B"]]
  have hlisted : (0 : NodeId) ∈ GraphBackend.nodesByLabel
      ([WriteCall.createNodeWithLabels ["A"], .restoreNode 0 ["B"]].foldl GraphHistory.step .new).graph
      "A" := by
    decide
  obtain ⟨n, hn, hl⟩ := (hr.nodesByLabel "A" 0).mp hlisted
  have hstored : GraphBackend.getNode
      ([WriteCall.createNodeWithLabels ["A"], .restoreNode 0 ["B"]].foldl GraphHistory.step .new).graph
      0 = some ⟨0, ["B"], ∅⟩ := by
    rfl
  rw [hstored] at hn
  rw [← Option.some.inj hn] at hl
  revert hl
  decide

end Maharit
