import MaharitDb.Core.ConcurrentGraphRuns
import MaharitDb.Server.StatementWrites

/-!
# The graph under open transactions

The undo logs of the open transactions name elements that were deleted and may be restored under their
former ids.  As long as the id counters do not wrap around, such an id is never live and never pending
twice: so every restoration finds its id free, and the graph stays consistent under any interleaving of
statements and rollbacks.
-/

namespace Maharit

open UndoLog GuardedRun

namespace UndoRecord

/-- The node that taking the record back restores. -/
def restoredNode : UndoRecord → Option NodeId
  | deleteNode id _ _ => some id
  | _ => none

/-- The edge that taking the record back restores. -/
def restoredEdge : UndoRecord → Option EdgeId
  | deleteEdge id _ _ _ _ => some id
  | _ => none

/-- A record about a label names it. -/
def NamesLabel : UndoRecord → Prop
  | addLabel _ label | removeLabel _ label => label ≠ ""
  | _ => True

end UndoRecord

/-- The call carries a non-empty label and stores under an unused id. -/
def WriteCall.Fresh (g : ConcurrentGraph) (c : WriteCall) : Prop := c.NonEmptyLabel ∧ c.StoresUnderFreshId g

/-- The graph is what its calls made it, and the given ids were handed out, are not live, and are not
listed twice. -/
structure Intact (g : ConcurrentGraph) (nodes : List NodeId) (edges : List EdgeId) : Prop where
  history : ∃ h : GraphHistory, h.graph = g ∧ h.Inv ∧ (∀ id ∈ nodes, id ∈ h.usedNodes) ∧
    ∀ id ∈ edges, id ∈ h.usedEdges
  nodes_dead : ∀ id ∈ nodes, id ∉ g.nodes
  edges_dead : ∀ id ∈ edges, id ∉ g.edges
  nodup_nodes : nodes.Nodup
  nodup_edges : edges.Nodup

namespace Intact

variable {g : ConcurrentGraph} {nodes : List NodeId} {edges : List EdgeId}

lemma consistent (h : Intact g nodes edges) : g.Consistent := by
  obtain ⟨h, rfl, hinv, -⟩ := h.history
  exact hinv.consistent

lemma node_lt (h : Intact g nodes edges) {id : NodeId} (hid : id ∈ nodes) : id < g.nextNodeId := by
  obtain ⟨h, rfl, hinv, hnodes, -⟩ := h.history
  exact hinv.nextNode id (hnodes id hid)

lemma edge_lt (h : Intact g nodes edges) {id : EdgeId} (hid : id ∈ edges) : id < g.nextEdgeId := by
  obtain ⟨h, rfl, hinv, -, hedges⟩ := h.history
  exact hinv.nextEdge id (hedges id hid)

/-- Forgetting some of the ids. -/
lemma subperm (h : Intact g nodes edges) {nodes' : List NodeId} {edges' : List EdgeId}
    (hnodes : nodes'.Subperm nodes) (hedges : edges'.Subperm edges) : Intact g nodes' edges' := by
  obtain ⟨k, hk, hinv, hused, husedEdges⟩ := h.history
  refine ⟨⟨k, hk, hinv, fun id hid => hused id (hnodes.subset hid), fun id hid =>
    husedEdges id (hedges.subset hid)⟩, fun id hid => h.nodes_dead id (hnodes.subset hid), fun id hid =>
    h.edges_dead id (hedges.subset hid), ?_, ?_⟩
  · obtain ⟨l, hperm, hsub⟩ := hnodes
    exact hperm.nodup_iff.mp (h.nodup_nodes.sublist hsub)
  · obtain ⟨l, hperm, hsub⟩ := hedges
    exact hperm.nodup_iff.mp (h.nodup_edges.sublist hsub)

/-- A node that is not live, and that the call does not store, is not live after the call. -/
lemma node_dead_apply (h : Intact g nodes edges) {c : WriteCall}
    (hkeep : ∀ k : GraphHistory, k.graph = g → k.Keeps c) {id : NodeId} (hid : id ∉ g.nodes)
    (hstored : id ∉ GraphHistory.nodeStored g c) : id ∉ (c.apply g).nodes := by
  obtain ⟨k, rfl, hinv, -⟩ := h.history
  intro hlive
  have hless : GraphHistory.Inv ⟨k.graph, k.usedNodes.filter (· ≠ id), k.usedEdges⟩ := by
    refine ⟨hinv.consistent, fun m hm => ?_, hinv.edges, fun m hm => ?_, hinv.nextEdge⟩
    · have hne : m ≠ id := fun heq => hid (heq ▸ hm)
      exact List.mem_filter.mpr ⟨hinv.nodes m hm, by simpa using hne⟩
    · exact hinv.nextNode m (List.mem_filter.mp hm).1
  have hmem := (hless.step (hkeep _ rfl)).nodes id hlive
  rcases List.mem_append.mp hmem with hmem | hmem
  · exact hstored hmem
  · simp at hmem

lemma edge_dead_apply (h : Intact g nodes edges) {c : WriteCall}
    (hkeep : ∀ k : GraphHistory, k.graph = g → k.Keeps c) {id : EdgeId} (hid : id ∉ g.edges)
    (hstored : id ∉ GraphHistory.edgeStored g c) : id ∉ (c.apply g).edges := by
  obtain ⟨k, rfl, hinv, -⟩ := h.history
  intro hlive
  have hless : GraphHistory.Inv ⟨k.graph, k.usedNodes, k.usedEdges.filter (· ≠ id)⟩ := by
    refine ⟨hinv.consistent, hinv.nodes, fun m hm => ?_, hinv.nextNode, fun m hm => ?_⟩
    · have hne : m ≠ id := fun heq => hid (heq ▸ hm)
      exact List.mem_filter.mpr ⟨hinv.edges m hm, by simpa using hne⟩
    · exact hinv.nextEdge m (List.mem_filter.mp hm).1
  have hmem := (hless.step (hkeep _ rfl)).edges id hlive
  rcases List.mem_append.mp hmem with hmem | hmem
  · exact hstored hmem
  · simp at hmem

/-- A call that does not store a pending id, and after which more ids are dead. -/
lemma step (h : Intact g nodes edges) {c : WriteCall} (hkeep : ∀ k : GraphHistory, k.graph = g → k.Keeps c)
    (hnodes : ∀ id ∈ nodes, id ∉ GraphHistory.nodeStored g c)
    (hedges : ∀ id ∈ edges, id ∉ GraphHistory.edgeStored g c) : Intact (c.apply g) nodes edges := by
  obtain ⟨k, rfl, hinv, hused, husedEdges⟩ := id h.history
  refine ⟨⟨k.step c, rfl, hinv.step (hkeep k rfl), fun id hid => List.mem_append_right _ (hused id hid),
    fun id hid => List.mem_append_right _ (husedEdges id hid)⟩, fun id hid => ?_, fun id hid => ?_,
    h.nodup_nodes, h.nodup_edges⟩
  · exact h.node_dead_apply hkeep (h.nodes_dead id hid) (hnodes id hid)
  · exact h.edge_dead_apply hkeep (h.edges_dead id hid) (hedges id hid)

/-- Ids that were live before a call and are not live after it become pending. -/
lemma add (h : Intact g nodes edges) {g' : ConcurrentGraph} (h' : Intact g' nodes edges)
    {newNodes : List NodeId} {newEdges : List EdgeId} (hnodes : ∀ id ∈ newNodes, id ∈ g.nodes ∧ id ∉ g'.nodes)
    (hedges : ∀ id ∈ newEdges, id ∈ g.edges ∧ id ∉ g'.edges) (hnodup : newNodes.Nodup)
    (hnodup' : newEdges.Nodup)
    (hhistory : ∀ k : GraphHistory, k.graph = g → k.Inv → ∃ k' : GraphHistory, k'.graph = g' ∧ k'.Inv ∧
      (∀ id ∈ k.usedNodes, id ∈ k'.usedNodes) ∧ ∀ id ∈ k.usedEdges, id ∈ k'.usedEdges) :
    Intact g' (nodes ++ newNodes) (edges ++ newEdges) := by
  obtain ⟨k, rfl, hinv, hused, husedEdges⟩ := id h.history
  obtain ⟨k', rfl, hinv', hmono, hmonoEdges⟩ := hhistory k rfl hinv
  refine ⟨⟨k', rfl, hinv', fun id hid => ?_, fun id hid => ?_⟩, fun id hid => ?_, fun id hid => ?_, ?_, ?_⟩
  · rcases List.mem_append.mp hid with hid | hid
    exacts [hmono id (hused id hid), hmono id (hinv.nodes id (hnodes id hid).1)]
  · rcases List.mem_append.mp hid with hid | hid
    exacts [hmonoEdges id (husedEdges id hid), hmonoEdges id (hinv.edges id (hedges id hid).1)]
  · rcases List.mem_append.mp hid with hid | hid
    exacts [h'.nodes_dead id hid, (hnodes id hid).2]
  · rcases List.mem_append.mp hid with hid | hid
    exacts [h'.edges_dead id hid, (hedges id hid).2]
  · refine List.nodup_append.mpr ⟨h.nodup_nodes, hnodup, fun a ha b hb hab => ?_⟩
    exact h.nodes_dead a ha (hab ▸ (hnodes b hb).1)
  · refine List.nodup_append.mpr ⟨h.nodup_edges, hnodup', fun a ha b hb hab => ?_⟩
    exact h.edges_dead a ha (hab ▸ (hedges b hb).1)

/-! ## Statements -/

open RecordingGraph

/-- The ids that the records of a call make pending. -/
def restoredNodes (records : List UndoRecord) : List NodeId := records.filterMap UndoRecord.restoredNode

def restoredEdges (records : List UndoRecord) : List EdgeId := records.filterMap UndoRecord.restoredEdge

lemma restoredNodes_append (log log' : List UndoRecord) :
    restoredNodes (log ++ log') = restoredNodes log ++ restoredNodes log' := List.filterMap_append

lemma restoredEdges_append (log log' : List UndoRecord) :
    restoredEdges (log ++ log') = restoredEdges log ++ restoredEdges log' := List.filterMap_append

lemma not_mem_nodes_deleteNode (hg : g.Consistent) (id : NodeId) : id ∉ (g.deleteNode id).1.nodes := by
  intro hlive
  have hcontent := ConcurrentGraph.content_nodes_isSome.mpr hlive
  rw [hg.content_deleteNode id, PropertyGraph.deleteNode] at hcontent
  simp at hcontent

lemma not_mem_edges_deleteNode (hg : g.Consistent) {id : NodeId} {e : Edge}
    (he : e ∈ incidentEdges g id) : e.id ∉ (g.deleteNode id).1.edges := by
  intro hlive
  obtain ⟨hlookup, hends⟩ := (hg.mem_incidentEdges id e).mp he
  have hcontent := ConcurrentGraph.content_edges_isSome.mpr hlive
  have hedge : g.content.edges e.id = some e.content := by
    simp only [ConcurrentGraph.content, hlookup, Option.map_some]
  rw [hg.content_deleteNode id, PropertyGraph.deleteNode] at hcontent
  obtain ⟨d, hd⟩ := Option.isSome_iff_exists.mp hcontent
  obtain ⟨hd, hkeep⟩ := Option.filter_eq_some_iff.mp hd
  obtain rfl := Option.some.inj (hedge.symm.trans hd)
  have hkeep : e.fromNode ≠ id ∧ e.toNode ≠ id := of_decide_eq_true hkeep
  exact hends.elim hkeep.1 hkeep.2

/-- A transactional call keeps the promise of the graph as long as the counters are not at their end. -/
lemma keeps_of_transactional {c : WriteCall} (hc : c.Transactional)
    (hnode : GraphHistory.nodeStored g c ≠ [] → g.nextNodeId ≠ maxId)
    (hedge : GraphHistory.edgeStored g c ≠ [] → g.nextEdgeId ≠ maxId) (k : GraphHistory) (hk : k.graph = g) :
    k.Keeps c := by
  subst hk
  obtain ⟨hlabel, hrestore⟩ := hc
  rcases c with labels | ⟨fromNode, toNode, label⟩ | id | id | ⟨id, key, value⟩ | ⟨id, key⟩ | ⟨id, label⟩ |
    ⟨id, label⟩ | ⟨id, key, value⟩ | ⟨id, key⟩ | ⟨id, labels⟩ | ⟨id, fromNode, toNode, label⟩
  case createNodeWithLabels => exact hnode (List.cons_ne_nil _ _)
  case createEdge =>
    intro hfrom hto
    exact hedge (by simp [GraphHistory.edgeStored, hfrom, hto])
  case addNodeLabel => exact fun n _ hempty => absurd hempty hlabel
  case restoreNode => exact absurd trivial hrestore
  case restoreEdge => exact absurd trivial hrestore
  all_goals trivial

/-- A transactional call stores elements under the next ids only. -/
lemma not_stored_of_transactional (h : Intact g nodes edges) {c : WriteCall} (hc : c.Transactional) :
    (∀ id ∈ nodes, id ∉ GraphHistory.nodeStored g c) ∧ ∀ id ∈ edges, id ∉ GraphHistory.edgeStored g c := by
  have hnode : ∀ id ∈ nodes, id ≠ g.nextNodeId := fun id hid heq =>
    absurd (h.node_lt hid) (heq ▸ UInt64.lt_irrefl _)
  have hedge : ∀ id ∈ edges, id ≠ g.nextEdgeId := fun id hid heq =>
    absurd (h.edge_lt hid) (heq ▸ UInt64.lt_irrefl _)
  rcases c with labels | ⟨fromNode, toNode, label⟩ | id | id | ⟨id, key, value⟩ | ⟨id, key⟩ | ⟨id, label⟩ |
    ⟨id, label⟩ | ⟨id, key, value⟩ | ⟨id, key⟩ | ⟨id, labels⟩ | ⟨id, fromNode, toNode, label⟩
  case createNodeWithLabels =>
    exact ⟨fun id hid => by simpa [GraphHistory.nodeStored] using hnode id hid, fun _ _ => List.not_mem_nil⟩
  case createEdge =>
    refine ⟨fun _ _ => List.not_mem_nil, fun id hid => ?_⟩
    simp only [GraphHistory.edgeStored]
    split
    · simpa using hedge id hid
    · exact List.not_mem_nil
  case restoreNode => exact absurd trivial hc.2
  case restoreEdge => exact absurd trivial hc.2
  all_goals exact ⟨fun _ _ => List.not_mem_nil, fun _ _ => List.not_mem_nil⟩

/-- What the records of a call would restore was live before it, is not live after it, and is listed
once. -/
lemma restored_undoRecords (hg : g.Consistent) (c : WriteCall) :
    (∀ id ∈ restoredNodes (undoRecords g c), id ∈ g.nodes ∧ id ∉ (c.apply g).nodes) ∧
      (∀ id ∈ restoredEdges (undoRecords g c), id ∈ g.edges ∧ id ∉ (c.apply g).edges) ∧
      (restoredNodes (undoRecords g c)).Nodup ∧ (restoredEdges (undoRecords g c)).Nodup := by
  have hnone : ∀ {records : List UndoRecord}, restoredNodes records = [] → restoredEdges records = [] →
      (∀ id ∈ restoredNodes records, id ∈ g.nodes ∧ id ∉ (c.apply g).nodes) ∧
      (∀ id ∈ restoredEdges records, id ∈ g.edges ∧ id ∉ (c.apply g).edges) ∧
      (restoredNodes records).Nodup ∧ (restoredEdges records).Nodup := by
    intro records hn he
    rw [hn, he]
    exact ⟨by simp, by simp, .nil, .nil⟩
  rcases c with labels | ⟨fromNode, toNode, label⟩ | id | id | ⟨id, key, value⟩ | ⟨id, key⟩ | ⟨id, label⟩ |
    ⟨id, label⟩ | ⟨id, key, value⟩ | ⟨id, key⟩ | ⟨id, labels⟩ | ⟨id, fromNode, toNode, label⟩
  case deleteNode =>
    rcases hn : g.nodes.lookup id with _ | n
    · exact hnone (by simp [undoRecords, hn, restoredNodes]) (by simp [undoRecords, hn, restoredEdges])
    · have hlive : id ∈ g.nodes := (HashMap.mem_iff_exists _ _).mpr ⟨n, hn⟩
      have hnodes : restoredNodes (undoRecords g (.deleteNode id)) = [id] := by
        simp [undoRecords, hn, restoredNodes, List.filterMap_map, Function.comp_def, deleteEdgeRecord,
          UndoRecord.restoredNode]
      have hedges : restoredEdges (undoRecords g (.deleteNode id)) = (incidentEdges g id).map Edge.id := by
        simp [undoRecords, hn, restoredEdges, List.filterMap_map, Function.comp_def, deleteEdgeRecord,
          UndoRecord.restoredEdge]
      rw [hnodes, hedges]
      refine ⟨fun m hm => ?_, fun m hm => ?_, List.nodup_singleton id, hg.nodup_incidentEdges id⟩
      · obtain rfl := List.mem_singleton.mp hm
        exact ⟨hlive, not_mem_nodes_deleteNode hg m⟩
      · obtain ⟨e, he, rfl⟩ := List.mem_map.mp hm
        have hlookup := ((hg.mem_incidentEdges id e).mp he).1
        exact ⟨(HashMap.mem_iff_exists _ _).mpr ⟨e, hlookup⟩, not_mem_edges_deleteNode hg he⟩
  case deleteEdge =>
    rcases he : g.edges.lookup id with _ | e
    · exact hnone (by simp [undoRecords, he, restoredNodes]) (by simp [undoRecords, he, restoredEdges])
    · have hlive : id ∈ g.edges := (HashMap.mem_iff_exists _ _).mpr ⟨e, he⟩
      have hnodes : restoredNodes (undoRecords g (.deleteEdge id)) = [] := by
        simp [undoRecords, he, restoredNodes, UndoRecord.restoredNode]
      have hedges : restoredEdges (undoRecords g (.deleteEdge id)) = [id] := by
        simp [undoRecords, he, restoredEdges, UndoRecord.restoredEdge]
      rw [hnodes, hedges]
      refine ⟨by simp, fun m hm => ?_, .nil, List.nodup_singleton id⟩
      obtain rfl := List.mem_singleton.mp hm
      refine ⟨hlive, ?_⟩
      change m ∉ (g.deleteEdge m).1.edges
      simp [ConcurrentGraph.deleteEdge, he]
  all_goals
    refine hnone ?_ ?_ <;> simp only [undoRecords] <;>
      first
        | rfl
        | (split <;> rfl)

/-- A call of a transaction. -/
lemma applyTransactional (h : Intact g nodes edges) {c : WriteCall} (hc : c.Transactional)
    (hnode : GraphHistory.nodeStored g c ≠ [] → g.nextNodeId ≠ maxId)
    (hedge : GraphHistory.edgeStored g c ≠ [] → g.nextEdgeId ≠ maxId) :
    Intact (c.apply g) (nodes ++ restoredNodes (undoRecords g c)) (edges ++ restoredEdges (undoRecords g c)) := by
  have hkeep := keeps_of_transactional hc hnode hedge
  obtain ⟨hstored, hstoredEdges⟩ := h.not_stored_of_transactional hc
  obtain ⟨hnodes, hedges, hnodup, hnodup'⟩ := restored_undoRecords h.consistent c
  refine h.add (h.step hkeep hstored hstoredEdges) hnodes hedges hnodup hnodup' fun k hk hinv => ?_
  subst hk
  exact ⟨k.step c, rfl, hinv.step (hkeep k rfl), fun id hid => List.mem_append_right _ hid,
    fun id hid => List.mem_append_right _ hid⟩

/-- The counters after a call that stores nothing. -/
lemma counters_of_plain {c : WriteCall} (hnode : GraphHistory.nodeStored g c = [])
    (hedge : GraphHistory.edgeStored g c = []) :
    (c.apply g).nextNodeId = g.nextNodeId ∧ (c.apply g).nextEdgeId = g.nextEdgeId := by
  rcases c with labels | ⟨fromNode, toNode, label⟩ | id | id | ⟨id, key, value⟩ | ⟨id, key⟩ | ⟨id, label⟩ |
    ⟨id, label⟩ | ⟨id, key, value⟩ | ⟨id, key⟩ | ⟨id, labels⟩ | ⟨id, fromNode, toNode, label⟩
  case createNodeWithLabels => exact absurd hnode (List.cons_ne_nil _ _)
  case restoreNode => exact absurd hnode (List.cons_ne_nil _ _)
  case createEdge =>
    have hends : ¬ (fromNode ∈ g.nodes ∧ toNode ∈ g.nodes) := fun h => by
      simp [GraphHistory.edgeStored, h] at hedge
    change (g.createEdge fromNode toNode label).1.nextNodeId = _ ∧ _
    unfold ConcurrentGraph.createEdge
    by_cases hfrom : fromNode ∈ g.nodes
    · have hto : toNode ∉ g.nodes := fun hto => hends ⟨hfrom, hto⟩
      simp [hfrom, hto, WriteCall.apply, GraphBackend.createEdge, ConcurrentGraph.createEdge]
    · simp [hfrom, WriteCall.apply, GraphBackend.createEdge, ConcurrentGraph.createEdge]
  case restoreEdge =>
    have hends : ¬ (fromNode ∈ g.nodes ∧ toNode ∈ g.nodes) := fun h => by
      simp [GraphHistory.edgeStored, h] at hedge
    by_cases hfrom : fromNode ∈ g.nodes
    · have hto : toNode ∉ g.nodes := fun hto => hends ⟨hfrom, hto⟩
      simp [hfrom, hto, WriteCall.apply, GraphBackend.restoreEdge, ConcurrentGraph.createEdgeWithId]
    · simp [hfrom, WriteCall.apply, GraphBackend.restoreEdge, ConcurrentGraph.createEdgeWithId]
  case deleteNode => exact GraphHistory.counters_deleteNode g id
  case deleteEdge =>
    change (g.deleteEdge id).1.nextNodeId = _ ∧ (g.deleteEdge id).1.nextEdgeId = _
    unfold ConcurrentGraph.deleteEdge
    rcases g.edges.lookup id with _ | e <;> exact ⟨rfl, rfl⟩
  case addNodeLabel => exact (GraphHistory.addNodeLabel_rest g id label).2
  case removeNodeLabel => exact (GraphHistory.removeNodeLabel_rest g id label).2
  all_goals exact ⟨rfl, rfl⟩

/-! ### Counters -/

/-- Both counters are at most a number of creations. -/
def AtMost (g : ConcurrentGraph) (n : ℕ) : Prop := g.nextNodeId.toNat ≤ n ∧ g.nextEdgeId.toNat ≤ n

lemma toNat_add_one {a : UInt64} {n : ℕ} (ha : a.toNat ≤ n) (hn : n + 1 < 2 ^ 64) :
    a ≠ maxId ∧ (a + 1).toNat ≤ n + 1 := by
  have hlt : a.toNat + 1 < 2 ^ 64 := by omega
  refine ⟨fun heq => ?_, ?_⟩
  · rw [heq] at hlt
    exact absurd hlt (by decide)
  · rw [UInt64.toNat_add, UInt64.toNat_one, Nat.mod_eq_of_lt hlt]
    omega

/-- A call of a transaction advances no counter further than it logs entries. -/
lemma atMost_apply (J : JsonText) {c : WriteCall} (hc : c.Transactional) {n : ℕ} (hg : AtMost g n)
    (hn : n + (walEntries J g c).length < 2 ^ 64) :
    (GraphHistory.nodeStored g c ≠ [] → g.nextNodeId ≠ maxId) ∧
      (GraphHistory.edgeStored g c ≠ [] → g.nextEdgeId ≠ maxId) ∧
      AtMost (c.apply g) (n + (walEntries J g c).length) := by
  have hplain : GraphHistory.nodeStored g c = [] → GraphHistory.edgeStored g c = [] →
      (GraphHistory.nodeStored g c ≠ [] → g.nextNodeId ≠ maxId) ∧
      (GraphHistory.edgeStored g c ≠ [] → g.nextEdgeId ≠ maxId) ∧
      AtMost (c.apply g) (n + (walEntries J g c).length) := by
    intro hnode hedge
    obtain ⟨hnext, hnextEdge⟩ := counters_of_plain hnode hedge
    refine ⟨fun h => absurd hnode h, fun h => absurd hedge h, ?_, ?_⟩
    · rw [hnext]
      exact hg.1.trans (Nat.le_add_right _ _)
    · rw [hnextEdge]
      exact hg.2.trans (Nat.le_add_right _ _)
  rcases c with labels | ⟨fromNode, toNode, label⟩ | id | id | ⟨id, key, value⟩ | ⟨id, key⟩ | ⟨id, label⟩ |
    ⟨id, label⟩ | ⟨id, key, value⟩ | ⟨id, key⟩ | ⟨id, labels⟩ | ⟨id, fromNode, toNode, label⟩
  case createNodeWithLabels =>
    obtain ⟨hne, hle⟩ := toNat_add_one hg.1 hn
    refine ⟨fun _ => hne, fun h => absurd rfl h, hle, hg.2.trans (Nat.le_add_right _ _)⟩
  case createEdge =>
    by_cases hends : fromNode ∈ g.nodes ∧ toNode ∈ g.nodes
    · have hone : (walEntries J g (.createEdge fromNode toNode label)).length = 1 := by
        simp only [walEntries, hends, and_self, if_true, List.length_singleton]
      rw [hone] at hn ⊢
      obtain ⟨hne, hle⟩ := toNat_add_one hg.2 hn
      have hgraph : WriteCall.apply g (.createEdge fromNode toNode label) =
          ({ g with nextEdgeId := g.nextEdgeId + 1 } : ConcurrentGraph).insertEdge g.nextEdgeId fromNode
            toNode label := by
        simp only [WriteCall.apply, GraphBackend.createEdge, ConcurrentGraph.createEdge, hends.1, hends.2,
          not_true, if_false]
      refine ⟨fun h => absurd rfl h, fun _ => hne, ?_, ?_⟩
      · rw [hgraph]
        exact hg.1.trans (Nat.le_add_right _ _)
      · rw [hgraph]
        exact hle
    · exact hplain rfl (by simp only [GraphHistory.edgeStored, hends, if_false])
  case restoreNode => exact absurd trivial hc.2
  case restoreEdge => exact absurd trivial hc.2
  all_goals exact hplain rfl rfl

/-- The calls of a statement: what they deleted becomes pending. -/
lemma run (J : JsonText) (h : Intact g nodes edges) {calls : List WriteCall}
    (hcalls : ∀ c ∈ calls, c.Transactional) {n : ℕ} (hg : AtMost g n)
    (hn : n + (runRecords WriteCall.apply (walEntries J) g calls).length < 2 ^ 64) :
    Intact (WriteCall.run g calls)
        (nodes ++ restoredNodes (runRecords WriteCall.apply undoRecords g calls))
        (edges ++ restoredEdges (runRecords WriteCall.apply undoRecords g calls)) ∧
      AtMost (WriteCall.run g calls) (n + (runRecords WriteCall.apply (walEntries J) g calls).length) := by
  induction calls generalizing g nodes edges n with
  | nil => simpa [runRecords, restoredNodes, restoredEdges] using And.intro h hg
  | cons c calls ih =>
    simp only [runRecords, List.length_append, ← Nat.add_assoc] at hn ⊢
    obtain ⟨hnode, hedge, hnext⟩ := atMost_apply J (hcalls c List.mem_cons_self) hg (by omega)
    have hstep := h.applyTransactional (hcalls c List.mem_cons_self) hnode hedge
    have hrest := ih hstep (fun d hd => hcalls d (List.mem_cons_of_mem c hd)) hnext hn
    simpa only [WriteCall.run_cons, restoredNodes_append, restoredEdges_append, List.append_assoc] using hrest

/-- The calls of a statement store under fresh ids. -/
lemma along_callGuard (J : JsonText) (h : Intact g nodes edges) {calls : List WriteCall}
    (hcalls : ∀ c ∈ calls, c.Transactional) {n : ℕ} (hg : AtMost g n)
    (hn : n + (runRecords WriteCall.apply (walEntries J) g calls).length < 2 ^ 64) :
    Along WriteCall.apply ConcurrentGraph.CallGuard g calls := by
  induction calls generalizing g nodes edges n with
  | nil => trivial
  | cons c calls ih =>
    simp only [runRecords, List.length_append, ← Nat.add_assoc] at hn
    have hc := hcalls c List.mem_cons_self
    obtain ⟨hnode, hedge, hnext⟩ := atMost_apply J hc hg (by omega)
    refine ⟨⟨hc, ?_⟩, ih (h.applyTransactional hc hnode hedge)
      (fun d hd => hcalls d (List.mem_cons_of_mem c hd)) hnext hn⟩
    obtain ⟨k, rfl, hinv, -⟩ := h.history
    have hnodes : k.graph.nextNodeId ∉ k.graph.nodes := fun hid =>
      UInt64.lt_irrefl _ (hinv.nextNode _ (hinv.nodes _ hid))
    have hedges : k.graph.nextEdgeId ∉ k.graph.edges := fun hid =>
      UInt64.lt_irrefl _ (hinv.nextEdge _ (hinv.edges _ hid))
    rcases c with labels | ⟨fromNode, toNode, label⟩ | id | id | ⟨id, key, value⟩ | ⟨id, key⟩ | ⟨id, label⟩ |
      ⟨id, label⟩ | ⟨id, key, value⟩ | ⟨id, key⟩ | ⟨id, labels⟩ | ⟨id, fromNode, toNode, label⟩
    case createNodeWithLabels => exact hnodes
    case createEdge => exact fun _ _ => hedges
    case restoreNode => exact absurd trivial hc.2
    case restoreEdge => exact absurd trivial hc.2
    all_goals trivial

/-- The records of a statement name the labels of its calls. -/
lemma namesLabel_undoRecords {c : WriteCall} (hc : c.Transactional) :
    ∀ u ∈ undoRecords g c, u.NamesLabel := by
  intro u hu
  rcases c with labels | ⟨fromNode, toNode, label⟩ | id | id | ⟨id, key, value⟩ | ⟨id, key⟩ | ⟨id, label⟩ |
    ⟨id, label⟩ | ⟨id, key, value⟩ | ⟨id, key⟩ | ⟨id, labels⟩ | ⟨id, fromNode, toNode, label⟩
  case deleteNode =>
    simp only [undoRecords] at hu
    split at hu
    · simp at hu
    · rcases List.mem_append.mp hu with hu | hu
      · obtain ⟨e, -, rfl⟩ := List.mem_map.mp hu
        trivial
      · obtain rfl := List.mem_singleton.mp hu
        trivial
  all_goals simp only [undoRecords] at hu
  case createNodeWithLabels | setNodeProperty | setEdgeProperty | restoreNode =>
    obtain rfl := List.mem_singleton.mp hu
    trivial
  all_goals
    split at hu
    all_goals first
      | exact absurd hu List.not_mem_nil
      | (obtain rfl := List.mem_singleton.mp hu
         first
           | trivial
           | exact hc.1)

lemma namesLabel_runRecords {calls : List WriteCall} (hcalls : ∀ c ∈ calls, c.Transactional) :
    ∀ u ∈ runRecords WriteCall.apply undoRecords g calls, u.NamesLabel := by
  induction calls generalizing g with
  | nil => simp [runRecords]
  | cons c calls ih =>
    intro u hu
    rcases List.mem_append.mp hu with hu | hu
    · exact namesLabel_undoRecords (hcalls c List.mem_cons_self) u hu
    · exact ih (fun d hd => hcalls d (List.mem_cons_of_mem c hd)) u hu

/-! ## Rollbacks -/

/-- A call of a transaction that stores nothing. -/
def Plain (c : WriteCall) : Prop :=
  c.Transactional ∧ ∀ g, GraphHistory.nodeStored g c = [] ∧ GraphHistory.edgeStored g c = []

/-- The same id counters. -/
def SameCounters (g g' : ConcurrentGraph) : Prop :=
  g'.nextNodeId = g.nextNodeId ∧ g'.nextEdgeId = g.nextEdgeId

lemma applyPlain (h : Intact g nodes edges) {c : WriteCall} (hc : Plain c) :
    Intact (c.apply g) nodes edges ∧ SameCounters g (c.apply g) := by
  obtain ⟨htx, hstored⟩ := hc
  obtain ⟨hnode, hedge⟩ := hstored g
  have hkeep := keeps_of_transactional htx (fun hne => absurd hnode hne) fun hne => absurd hedge hne
  refine ⟨h.step hkeep ?_ ?_, counters_of_plain hnode hedge⟩
  · rw [hnode]
    exact fun _ _ => List.not_mem_nil
  · rw [hedge]
    exact fun _ _ => List.not_mem_nil

/-- Putting properties back. -/
lemma foldlPlain {ι : Type} (call : ι → WriteCall) (hcall : ∀ i, Plain (call i)) (is : List ι)
    (h : Intact g nodes edges) :
    Intact (is.foldl (fun g i => (call i).apply g) g) nodes edges ∧
      SameCounters g (is.foldl (fun g i => (call i).apply g) g) := by
  induction is generalizing g with
  | nil => exact ⟨h, rfl, rfl⟩
  | cons i is ih =>
    obtain ⟨hstep, hsame⟩ := h.applyPlain (hcall i)
    obtain ⟨hrest, hsame'⟩ := ih hstep
    exact ⟨hrest, hsame'.1.trans hsame.1, hsame'.2.trans hsame.2⟩

lemma advance_of_lt {next id : UInt64} (h : id < next) : ConcurrentGraph.advance next id = next := by
  unfold ConcurrentGraph.advance
  rw [if_neg (UInt64.not_le.mpr h)]

/-- A pending node comes back under its id. -/
lemma restoreNode {id : NodeId} (h : Intact g (id :: nodes) edges) (labels : List String) :
    Intact (WriteCall.apply g (.restoreNode id labels)) nodes edges ∧
      SameCounters g (WriteCall.apply g (.restoreNode id labels)) := by
  have hlt := h.node_lt List.mem_cons_self
  have hdead := h.nodes_dead id List.mem_cons_self
  have hrest : Intact g nodes edges := h.subperm (List.sublist_cons_self id nodes).subperm (.refl edges)
  refine ⟨hrest.step (fun k hk => ⟨?_, fun n hn => ?_⟩) (fun m hm => ?_) fun _ _ => List.not_mem_nil, ?_⟩
  · rintro rfl
    exact absurd (le_maxId g.nextNodeId) (UInt64.not_le.mpr hlt)
  · rw [hk] at hn
    exact absurd ((HashMap.mem_iff_exists _ _).mpr ⟨n, hn⟩) hdead
  · have hne : m ≠ id := fun heq => (List.nodup_cons.mp h.nodup_nodes).1 (heq ▸ hm)
    simpa [GraphHistory.nodeStored] using hne
  · exact ⟨advance_of_lt hlt, rfl⟩

/-- A pending edge comes back under its id, if its ends are there. -/
lemma restoreEdge {id : EdgeId} (h : Intact g nodes (id :: edges)) (fromNode toNode : NodeId)
    (label : String) :
    Intact (WriteCall.apply g (.restoreEdge id fromNode toNode label)) nodes edges ∧
      SameCounters g (WriteCall.apply g (.restoreEdge id fromNode toNode label)) := by
  have hlt := h.edge_lt List.mem_cons_self
  have hdead := h.edges_dead id List.mem_cons_self
  have hrest : Intact g nodes edges := h.subperm (.refl nodes) (List.sublist_cons_self id edges).subperm
  refine ⟨hrest.step (fun k hk => fun _ _ => ⟨?_, fun e he => ?_⟩) (fun _ _ => List.not_mem_nil)
    (fun m hm => ?_), ?_⟩
  · rintro rfl
    exact absurd (le_maxId g.nextEdgeId) (UInt64.not_le.mpr hlt)
  · rw [hk] at he
    exact absurd ((HashMap.mem_iff_exists _ _).mpr ⟨e, he⟩) hdead
  · have hne : m ≠ id := fun heq => (List.nodup_cons.mp h.nodup_edges).1 (heq ▸ hm)
    simp only [GraphHistory.edgeStored]
    split
    · simpa using hne
    · exact List.not_mem_nil
  · by_cases hends : fromNode ∈ g.nodes ∧ toNode ∈ g.nodes
    · have hgraph : WriteCall.apply g (.restoreEdge id fromNode toNode label) =
          ({ g with nextEdgeId := ConcurrentGraph.advance g.nextEdgeId id } : ConcurrentGraph).insertEdge id
            fromNode toNode label := by
        simp only [WriteCall.apply, GraphBackend.restoreEdge, ConcurrentGraph.createEdgeWithId, hends.1,
          hends.2, not_true, if_false]
      rw [hgraph]
      exact ⟨rfl, advance_of_lt hlt⟩
    · exact counters_of_plain rfl (by simp only [GraphHistory.edgeStored, hends, if_false])

/-- Taking one record back uses up the id that the record makes pending. -/
lemma undo {u : UndoRecord} (hu : u.NamesLabel)
    (h : Intact g (nodes ++ u.restoredNode.toList) (edges ++ u.restoredEdge.toList)) :
    Intact (u.undo g) nodes edges ∧ SameCounters g (u.undo g) := by
  have hplain : ∀ {c : WriteCall}, Plain c → u.restoredNode = none → u.restoredEdge = none →
      u.undo g = c.apply g → Intact (u.undo g) nodes edges ∧ SameCounters g (u.undo g) := by
    intro c hc hnode hedge hundo
    rw [hnode, hedge, Option.toList_none, List.append_nil, List.append_nil] at h
    rw [hundo]
    exact h.applyPlain hc
  rcases u with id | ⟨id, labels, properties⟩ | ⟨id, key, _ | value⟩ | id |
    ⟨id, fromNode, toNode, label, properties⟩ | ⟨id, key, _ | value⟩ | ⟨id, label⟩ | ⟨id, label⟩
  case createNode => exact hplain (c := .deleteNode id) ⟨⟨trivial, fun h => h⟩, fun _ => ⟨rfl, rfl⟩⟩ rfl rfl rfl
  case deleteNode =>
    have hcons : Intact g (id :: nodes) edges :=
      h.subperm (List.perm_append_singleton id nodes).symm.subperm (List.sublist_append_left edges []).subperm
    obtain ⟨hrestored, hsame⟩ := hcons.restoreNode labels
    obtain ⟨hall, hsame'⟩ := hrestored.foldlPlain
      (fun p : Sigma fun _ : String => PropertyValue => .setNodeProperty id p.1 p.2)
      (fun _ => ⟨⟨trivial, fun h => h⟩, fun _ => ⟨rfl, rfl⟩⟩) properties.entries
    exact ⟨hall, hsame'.1.trans hsame.1, hsame'.2.trans hsame.2⟩
  case setProperty.none =>
    exact hplain (c := .removeNodeProperty id key) ⟨⟨trivial, fun h => h⟩, fun _ => ⟨rfl, rfl⟩⟩ rfl rfl rfl
  case setProperty.some =>
    exact hplain (c := .setNodeProperty id key value) ⟨⟨trivial, fun h => h⟩, fun _ => ⟨rfl, rfl⟩⟩ rfl rfl rfl
  case createEdge => exact hplain (c := .deleteEdge id) ⟨⟨trivial, fun h => h⟩, fun _ => ⟨rfl, rfl⟩⟩ rfl rfl rfl
  case deleteEdge =>
    have hcons : Intact g nodes (id :: edges) :=
      h.subperm (List.sublist_append_left nodes []).subperm (List.perm_append_singleton id edges).symm.subperm
    obtain ⟨hrestored, hsame⟩ := hcons.restoreEdge fromNode toNode label
    simp only [WriteCall.apply] at hrestored hsame
    simp only [UndoRecord.undo]
    rcases hresult : GraphBackend.restoreEdge g id fromNode toNode label with ⟨g', e | ⟨⟩⟩
    · rw [hresult] at hrestored hsame
      exact ⟨hrestored, hsame⟩
    · rw [hresult] at hrestored hsame
      obtain ⟨hall, hsame'⟩ := hrestored.foldlPlain
        (fun p : Sigma fun _ : String => PropertyValue => .setEdgeProperty id p.1 p.2)
        (fun _ => ⟨⟨trivial, fun h => h⟩, fun _ => ⟨rfl, rfl⟩⟩) properties.entries
      exact ⟨hall, hsame'.1.trans hsame.1, hsame'.2.trans hsame.2⟩
  case setEdgeProperty.none =>
    exact hplain (c := .removeEdgeProperty id key) ⟨⟨trivial, fun h => h⟩, fun _ => ⟨rfl, rfl⟩⟩ rfl rfl rfl
  case setEdgeProperty.some =>
    exact hplain (c := .setEdgeProperty id key value) ⟨⟨trivial, fun h => h⟩, fun _ => ⟨rfl, rfl⟩⟩ rfl rfl rfl
  case addLabel => exact hplain (c := .removeNodeLabel id label) ⟨⟨hu, fun h => h⟩, fun _ => ⟨rfl, rfl⟩⟩ rfl rfl rfl
  case removeLabel => exact hplain (c := .addNodeLabel id label) ⟨⟨hu, fun h => h⟩, fun _ => ⟨rfl, rfl⟩⟩ rfl rfl rfl

lemma restoredNodes_concat (log : List UndoRecord) (u : UndoRecord) :
    restoredNodes (log ++ [u]) = restoredNodes log ++ u.restoredNode.toList := by
  rw [restoredNodes_append]
  rcases hu : u.restoredNode with _ | id <;> simp [restoredNodes, hu]

lemma restoredEdges_concat (log : List UndoRecord) (u : UndoRecord) :
    restoredEdges (log ++ [u]) = restoredEdges log ++ u.restoredEdge.toList := by
  rw [restoredEdges_append]
  rcases hu : u.restoredEdge with _ | id <;> simp [restoredEdges, hu]

/-- A rollback uses up the ids of its log. -/
lemma replay {log : List UndoRecord} (hlog : ∀ u ∈ log, u.NamesLabel)
    (h : Intact g (nodes ++ restoredNodes log) (edges ++ restoredEdges log)) :
    Intact (UndoLog.replay UndoRecord.undo g log) nodes edges ∧
      SameCounters g (UndoLog.replay UndoRecord.undo g log) := by
  induction log using List.reverseRecOn generalizing g with
  | nil =>
    rw [replay_nil]
    exact ⟨by simpa [restoredNodes, restoredEdges] using h, rfl, rfl⟩
  | append_singleton log u ih =>
    rw [restoredNodes_concat, restoredEdges_concat, ← List.append_assoc, ← List.append_assoc] at h
    obtain ⟨hundone, hsame⟩ := h.undo (hlog u (by simp))
    obtain ⟨hrest, hsame'⟩ := ih (fun v hv => hlog v (List.mem_append_left _ hv)) hundone
    rw [replay_append, replay_singleton]
    exact ⟨hrest, hsame'.1.trans hsame.1, hsame'.2.trans hsame.2⟩

/-! ### The calls of a rollback -/

/-- Calls that store nothing are fresh in every state. -/
lemma along_fresh_of_plain {g : ConcurrentGraph} {calls : List WriteCall} (h : ∀ c ∈ calls, Plain c) :
    Along WriteCall.apply WriteCall.Fresh g calls := by
  induction calls generalizing g with
  | nil => trivial
  | cons c calls ih =>
    obtain ⟨⟨hlabel, hrestore⟩, hstored⟩ := h c List.mem_cons_self
    refine ⟨⟨hlabel, ?_⟩, ih fun d hd => h d (List.mem_cons_of_mem c hd)⟩
    rcases c with labels | ⟨fromNode, toNode, label⟩ | id | id | ⟨id, key, value⟩ | ⟨id, key⟩ | ⟨id, label⟩ |
      ⟨id, label⟩ | ⟨id, key, value⟩ | ⟨id, key⟩ | ⟨id, labels⟩ | ⟨id, fromNode, toNode, label⟩
    case createNodeWithLabels => exact absurd (hstored g).1 (List.cons_ne_nil _ _)
    case createEdge =>
      intro hfrom hto
      have hone := (hstored g).2
      simp [GraphHistory.edgeStored, hfrom, hto] at hone
    case restoreNode => exact absurd trivial hrestore
    case restoreEdge => exact absurd trivial hrestore
    all_goals trivial

/-- Taking one record back is a sequence of fresh calls, also through a recorder. -/
lemma undo_calls {u : UndoRecord} (hu : u.NamesLabel)
    (h : Intact g (nodes ++ u.restoredNode.toList) (edges ++ u.restoredEdge.toList)) :
    ∃ calls, (∀ (J : JsonText) (r : RecordingGraph J), r.graph = g → u.undo r = WriteCall.run r calls) ∧
      Along WriteCall.apply WriteCall.Fresh g calls := by
  have hplain : ∀ {c : WriteCall}, Plain c →
      (∀ (J : JsonText) (r : RecordingGraph J), u.undo r = c.apply r) →
      ∃ calls, (∀ (J : JsonText) (r : RecordingGraph J), r.graph = g → u.undo r = WriteCall.run r calls) ∧
        Along WriteCall.apply WriteCall.Fresh g calls := fun {c} hc hundo =>
    ⟨[c], fun J r _ => hundo J r, along_fresh_of_plain fun d hd => List.mem_singleton.mp hd ▸ hc⟩
  have hproperties : ∀ {J : JsonText} (call : (Sigma fun _ : String => PropertyValue) → WriteCall)
      (entries : List (Sigma fun _ : String => PropertyValue)) (r : RecordingGraph J),
      entries.foldl (fun r p => (call p).apply r) r = WriteCall.run r (entries.map call) := by
    intro J call entries r
    rw [WriteCall.run, List.foldl_map]
  rcases u with id | ⟨id, labels, properties⟩ | ⟨id, key, _ | value⟩ | id |
    ⟨id, fromNode, toNode, label, properties⟩ | ⟨id, key, _ | value⟩ | ⟨id, label⟩ | ⟨id, label⟩
  case createNode => exact hplain (c := .deleteNode id) ⟨⟨trivial, fun h => h⟩, fun _ => ⟨rfl, rfl⟩⟩ fun _ _ => rfl
  case deleteNode =>
    refine ⟨.restoreNode id labels :: properties.entries.map fun p => .setNodeProperty id p.1 p.2, fun J r _ => ?_,
      ⟨trivial, h.nodes_dead id (by simp [UndoRecord.restoredNode])⟩, along_fresh_of_plain fun c hc => ?_⟩
    · exact hproperties (fun p => .setNodeProperty id p.1 p.2) _ _
    · obtain ⟨p, -, rfl⟩ := List.mem_map.mp hc
      exact ⟨⟨trivial, fun h => h⟩, fun _ => ⟨rfl, rfl⟩⟩
  case setProperty.none =>
    exact hplain (c := .removeNodeProperty id key) ⟨⟨trivial, fun h => h⟩, fun _ => ⟨rfl, rfl⟩⟩ fun _ _ => rfl
  case setProperty.some =>
    exact hplain (c := .setNodeProperty id key value) ⟨⟨trivial, fun h => h⟩, fun _ => ⟨rfl, rfl⟩⟩ fun _ _ => rfl
  case createEdge => exact hplain (c := .deleteEdge id) ⟨⟨trivial, fun h => h⟩, fun _ => ⟨rfl, rfl⟩⟩ fun _ _ => rfl
  case deleteEdge =>
    have hdead : id ∉ g.edges := h.edges_dead id (by simp [UndoRecord.restoredEdge])
    by_cases hends : fromNode ∈ g.nodes ∧ toNode ∈ g.nodes
    · refine ⟨.restoreEdge id fromNode toNode label ::
        properties.entries.map fun p => .setEdgeProperty id p.1 p.2, fun J r hr => ?_,
        ⟨trivial, hdead⟩, along_fresh_of_plain fun c hc => ?_⟩
      · subst hr
        have hrestored : ∃ r' : RecordingGraph J,
            GraphBackend.restoreEdge r id fromNode toNode label = (r', .ok ()) := by
          simp only [GraphBackend.restoreEdge, RecordingGraph.restoreEdge, ConcurrentGraph.createEdgeWithId, hends.1,
            hends.2, not_true, if_false]
          exact ⟨_, rfl⟩
        obtain ⟨r', hrestored⟩ := hrestored
        simp only [UndoRecord.undo, hrestored, WriteCall.run_cons, WriteCall.apply]
        exact hproperties (fun p => .setEdgeProperty id p.1 p.2) _ _
      · obtain ⟨p, -, rfl⟩ := List.mem_map.mp hc
        exact ⟨⟨trivial, fun h => h⟩, fun _ => ⟨rfl, rfl⟩⟩
    · refine ⟨[.restoreEdge id fromNode toNode label], fun J r hr => ?_, ⟨trivial, hdead⟩, trivial⟩
      subst hr
      have hrefused : ∃ (r' : RecordingGraph J) (e : GraphError),
          GraphBackend.restoreEdge r id fromNode toNode label = (r', .error e) := by
        simp only [GraphBackend.restoreEdge, RecordingGraph.restoreEdge, ConcurrentGraph.createEdgeWithId]
        by_cases hfrom : fromNode ∈ r.graph.nodes
        · have hto : toNode ∉ r.graph.nodes := fun hto => hends ⟨hfrom, hto⟩
          simp only [hfrom, hto, not_true, not_false_iff, if_true, if_false]
          exact ⟨_, _, rfl⟩
        · simp only [hfrom, not_false_iff, if_true]
          exact ⟨_, _, rfl⟩
      obtain ⟨r', e, hrefused⟩ := hrefused
      simp only [UndoRecord.undo, hrefused, WriteCall.run_cons, WriteCall.run_nil, WriteCall.apply]
  case setEdgeProperty.none =>
    exact hplain (c := .removeEdgeProperty id key) ⟨⟨trivial, fun h => h⟩, fun _ => ⟨rfl, rfl⟩⟩ fun _ _ => rfl
  case setEdgeProperty.some =>
    exact hplain (c := .setEdgeProperty id key value) ⟨⟨trivial, fun h => h⟩, fun _ => ⟨rfl, rfl⟩⟩ fun _ _ => rfl
  case addLabel =>
    exact hplain (c := .removeNodeLabel id label) ⟨⟨hu, fun h => h⟩, fun _ => ⟨rfl, rfl⟩⟩ fun _ _ => rfl
  case removeLabel =>
    exact hplain (c := .addNodeLabel id label) ⟨⟨hu, fun h => h⟩, fun _ => ⟨rfl, rfl⟩⟩ fun _ _ => rfl

/-- A rollback is a sequence of fresh calls, also through a recorder. -/
lemma replay_calls {log : List UndoRecord} (hlog : ∀ u ∈ log, u.NamesLabel)
    (h : Intact g (nodes ++ restoredNodes log) (edges ++ restoredEdges log)) :
    ∃ calls, (∀ (J : JsonText) (r : RecordingGraph J), r.graph = g →
        UndoLog.replay UndoRecord.undo r log = WriteCall.run r calls) ∧
      Along WriteCall.apply WriteCall.Fresh g calls := by
  induction log using List.reverseRecOn generalizing g with
  | nil => exact ⟨[], fun _ _ _ => rfl, trivial⟩
  | append_singleton log u ih =>
    rw [restoredNodes_concat, restoredEdges_concat, ← List.append_assoc, ← List.append_assoc] at h
    have hu := hlog u (by simp)
    obtain ⟨hundone, -⟩ := h.undo hu
    obtain ⟨calls, hcalls, hfresh⟩ := h.undo_calls hu
    obtain ⟨rest, hrest, hfresh'⟩ := ih (fun v hv => hlog v (List.mem_append_left _ hv)) hundone
    refine ⟨calls ++ rest, fun J r hr => ?_, along_append.mpr ⟨hfresh, ?_⟩⟩
    · have hgraph : (u.undo r).graph = u.undo g := by
        rw [RecordingGraph.undo_graph, hr]
      rw [replay_append, replay_singleton, hrest J (u.undo r) hgraph, hcalls J r hr, WriteCall.run_append]
    · have hrun : u.undo g = WriteCall.run g calls := by
        have hrecorder := hcalls ⟨⟨fun _ => "", fun _ => ""⟩, fun s => s, fun _ => none⟩ ⟨g, false, [], none⟩ rfl
        have hgraph := congrArg RecordingGraph.graph hrecorder
        rwa [RecordingGraph.undo_graph, RecordingGraph.run_graph] at hgraph
      rw [hrun] at hfresh'
      exact hfresh'

end Intact

end Maharit
