import MaharitDb.Core.ConcurrentGraphContent
import MaharitDb.Server.MutationLog

/-!
# Replication reproduces the leader

A follower applies the log entries of its leader one by one (`apply_wal_entry` in
`maharit-server/src/replication.rs`).

The simulation relation is equality of all five maps of the two graphs; only the id counters may
differ, since the follower stores every element under the id the leader chose.  Two things break it.
A value whose text does not read back is stored differently, and so is a node that the leader
creates over a live one: the leader forgets the adjacency of the old node and the follower keeps it.
-/

namespace Maharit

open UndoLog GuardedRun

/-- Apply a single log entry to the local graph; a refused edge is only reported. -/
def applyWalEntry (J : JsonText) (g : ConcurrentGraph) : WalEntryData → ConcurrentGraph
  | .createNode nodeId labels => (g.createNodeWithIdAndLabels nodeId labels).1
  | .deleteNode nodeId => (g.deleteNode nodeId).1
  | .createEdge edgeId fromNode toNode label =>
      (g.createEdgeWithId edgeId fromNode toNode label).1
  | .deleteEdge edgeId => (g.deleteEdge edgeId).1
  | .setProperty targetId isNode key value =>
      if isNode then g.setNodeProperty targetId key (walStringToPropertyValue J value)
      else g.setEdgeProperty targetId key (walStringToPropertyValue J value)
  | .removeProperty targetId isNode key =>
      if isNode then (g.removeNodeProperty targetId key).1
      else (g.removeEdgeProperty targetId key).1
  | .addLabel nodeId label => g.addNodeLabel nodeId label
  | .removeLabel nodeId label => g.removeNodeLabel nodeId label

namespace ConcurrentGraph

/-! ## Graphs up to their counters -/

/-- The graph with other counters. -/
def withCounters (g : ConcurrentGraph) (a b : UInt64) : ConcurrentGraph :=
  { g with nextNodeId := a, nextEdgeId := b }

@[simp] lemma content_withCounters (g : ConcurrentGraph) (a b : UInt64) :
    (g.withCounters a b).content = g.content := rfl

@[simp] lemma withCounters_nodes (g : ConcurrentGraph) (a b : UInt64) :
    (g.withCounters a b).nodes = g.nodes := rfl

@[simp] lemma withCounters_edges (g : ConcurrentGraph) (a b : UInt64) :
    (g.withCounters a b).edges = g.edges := rfl

lemma dropOutgoing_withCounters (g : ConcurrentGraph) (a b : UInt64) (e : EdgeId) :
    (g.withCounters a b).dropOutgoing e = (g.dropOutgoing e).withCounters a b := by
  unfold dropOutgoing
  rw [withCounters_edges]
  cases g.edges.lookup e <;> rfl

lemma dropIncoming_withCounters (g : ConcurrentGraph) (a b : UInt64) (e : EdgeId) :
    (g.withCounters a b).dropIncoming e = (g.dropIncoming e).withCounters a b := by
  unfold dropIncoming
  rw [withCounters_edges]
  cases g.edges.lookup e <;> rfl

/-- A loop whose rounds do not look at the counters does not either. -/
lemma foldl_withCounters {ι : Type} (f : ConcurrentGraph → ι → ConcurrentGraph)
    (hf : ∀ g a b i, f (g.withCounters a b) i = (f g i).withCounters a b) (is : List ι)
    (g : ConcurrentGraph) (a b : UInt64) :
    is.foldl f (g.withCounters a b) = (is.foldl f g).withCounters a b := by
  induction is generalizing g with
  | nil => rfl
  | cons i is ih => rw [List.foldl_cons, hf, ih, List.foldl_cons]

/-- Deleting a node does not look at the counters. -/
lemma deleteNode_withCounters (g : ConcurrentGraph) (a b : UInt64) (id : NodeId) :
    ((g.withCounters a b).deleteNode id).1 = (g.deleteNode id).1.withCounters a b := by
  have hout : ∀ g : ConcurrentGraph, (g.withCounters a b).takeOutgoing id =
      (g.takeOutgoing id).withCounters a b := fun g =>
    foldl_withCounters dropOutgoing dropOutgoing_withCounters _
      { g with outgoing := g.outgoing.erase id } a b
  have hin : ∀ g : ConcurrentGraph, (g.withCounters a b).takeIncoming id =
      (g.takeIncoming id).withCounters a b := fun g =>
    foldl_withCounters dropIncoming dropIncoming_withCounters _
      { g with incoming := g.incoming.erase id } a b
  unfold deleteNode
  rw [withCounters_nodes]
  cases g.nodes.lookup id with
  | none => rfl
  | some n =>
    simp only
    rw [← hin, ← hout]
    rfl

/-- Deleting an edge does not look at the counters. -/
lemma deleteEdge_withCounters (g : ConcurrentGraph) (a b : UInt64) (id : EdgeId) :
    ((g.withCounters a b).deleteEdge id).1 = (g.deleteEdge id).1.withCounters a b := by
  unfold deleteEdge
  rw [withCounters_edges]
  cases g.edges.lookup id <;> rfl

lemma addNodeLabel_withCounters (g : ConcurrentGraph) (a b : UInt64) (id : NodeId)
    (label : String) :
    (g.withCounters a b).addNodeLabel id label = (g.addNodeLabel id label).withCounters a b := by
  unfold addNodeLabel
  rw [withCounters_nodes]
  cases g.nodes.lookup id with
  | none => rfl
  | some n => simp only; split <;> rfl

lemma removeNodeLabel_withCounters (g : ConcurrentGraph) (a b : UInt64) (id : NodeId)
    (label : String) :
    (g.withCounters a b).removeNodeLabel id label =
      (g.removeNodeLabel id label).withCounters a b := by
  unfold removeNodeLabel
  rw [withCounters_nodes]
  cases g.nodes.lookup id with
  | none => rfl
  | some n => simp only; split <;> rfl

/-- Storing an edge under a chosen id moves the counters only. -/
lemma createEdgeWithId_withCounters (g : ConcurrentGraph) (a b : UInt64) (id : EdgeId)
    {fromNode toNode : NodeId} (hfrom : fromNode ∈ g.nodes) (hto : toNode ∈ g.nodes)
    (label : String) :
    ∃ b', ((g.withCounters a b).createEdgeWithId id fromNode toNode label).1 =
      (g.insertEdge id fromNode toNode label).withCounters a b' := by
  refine ⟨advance b id, ?_⟩
  simp only [createEdgeWithId, withCounters_nodes, hfrom, hto, not_true, if_false]
  rfl

/-! ## Calls without effect -/

lemma setNodeProperty_of_notMem (g : ConcurrentGraph) {id : NodeId} (hid : id ∉ g.nodes)
    (key : String) (value : PropertyValue) : g.setNodeProperty id key value = g := by
  have hsame := HashMap.modify_eq_self g.nodes id (·.setProperty key value)
    fun n hn => absurd ((HashMap.mem_iff_exists _ _).mpr ⟨n, hn⟩) hid
  simp [setNodeProperty, hsame]

lemma setEdgeProperty_of_notMem (g : ConcurrentGraph) {id : EdgeId} (hid : id ∉ g.edges)
    (key : String) (value : PropertyValue) : g.setEdgeProperty id key value = g := by
  have hsame := HashMap.modify_eq_self g.edges id (·.setProperty key value)
    fun e he => absurd ((HashMap.mem_iff_exists _ _).mpr ⟨e, he⟩) hid
  simp [setEdgeProperty, hsame]

lemma removeNodeProperty_of_absent (g : ConcurrentGraph) {id : NodeId} {key : String}
    (h : GraphBackend.getNodeProperty g id key = none) : (g.removeNodeProperty id key).1 = g := by
  have hsame := HashMap.modify_eq_self g.nodes id (·.removeProperty key) fun n hn => by
    have hkey : key ∉ n.properties := by
      simpa [GraphBackend.getNodeProperty, hn, Node.getProperty, AList.lookup_eq_none] using h
    simp [Node.removeProperty, HashMap.erase_eq_self _ hkey]
  simp [removeNodeProperty, hsame]

lemma removeEdgeProperty_of_absent (g : ConcurrentGraph) {id : EdgeId} {key : String}
    (h : (g.edges.lookup id).bind (·.getProperty key) = none) :
    (g.removeEdgeProperty id key).1 = g := by
  have hsame := HashMap.modify_eq_self g.edges id (·.removeProperty key) fun e he => by
    have hkey : key ∉ e.properties := by
      simpa [he, Edge.getProperty, AList.lookup_eq_none] using h
    simp [Edge.removeProperty, HashMap.erase_eq_self _ hkey]
  simp [removeEdgeProperty, hsame]

/-! ## Adjacency sets of live nodes -/

/-- Adjacency sets are kept for live nodes only. -/
structure AdjacencyLive (g : ConcurrentGraph) : Prop where
  outgoing : ∀ id, id ∈ g.outgoing → id ∈ g.nodes
  incoming : ∀ id, id ∈ g.incoming → id ∈ g.nodes

lemma adjacencyLive_new : new.AdjacencyLive :=
  ⟨fun _ h => h, fun _ h => h⟩

/-- On a new id, the leader's and the follower's way of storing a node give the same maps. -/
lemma AdjacencyLive.createNodeWithIdAndLabels_withCounters {g : ConcurrentGraph}
    (hg : g.AdjacencyLive) (hid : g.nextNodeId ∉ g.nodes) (a b : UInt64) (labels : List String) :
    ∃ a', ((g.withCounters a b).createNodeWithIdAndLabels g.nextNodeId labels).1 =
      (g.createNodeWithLabels labels).1.withCounters a' b := by
  have hout : g.nextNodeId ∉ g.outgoing := fun h => hid (hg.outgoing _ h)
  have hin : g.nextNodeId ∉ g.incoming := fun h => hid (hg.incoming _ h)
  refine ⟨advance a g.nextNodeId, ?_⟩
  simp only [createNodeWithIdAndLabels, createNodeWithLabels, labelIndexAdd, withCounters,
    HashMap.ensure_eq_insert _ hout, HashMap.ensure_eq_insert _ hin]

/-- A graph that keeps the live nodes and gives new adjacency sets to live nodes only. -/
lemma AdjacencyLive.mono {g g' : ConcurrentGraph} (hg : g.AdjacencyLive)
    (hnodes : ∀ n, n ∈ g.nodes → n ∈ g'.nodes)
    (hout : ∀ n, n ∈ g'.outgoing → n ∈ g.outgoing ∨ n ∈ g'.nodes)
    (hin : ∀ n, n ∈ g'.incoming → n ∈ g.incoming ∨ n ∈ g'.nodes) : g'.AdjacencyLive where
  outgoing n hn := (hout n hn).elim (fun h => hnodes n (hg.outgoing n h)) id
  incoming n hn := (hin n hn).elim (fun h => hnodes n (hg.incoming n h)) id

lemma AdjacencyLive.insertEdge {g : ConcurrentGraph} (hg : g.AdjacencyLive) (id : EdgeId)
    {fromNode toNode : NodeId} (hfrom : fromNode ∈ g.nodes) (hto : toNode ∈ g.nodes)
    (label : String) (a b : UInt64) :
    ((g.withCounters a b).insertEdge id fromNode toNode label).AdjacencyLive := by
  refine hg.mono (fun _ hn => hn) (fun n hn => ?_) (fun n hn => ?_)
  · rcases (HashMap.mem_modifyDefault _ _ _ _).mp hn with rfl | hn
    · exact .inr hfrom
    · exact .inl hn
  · rcases (HashMap.mem_modifyDefault _ _ _ _).mp hn with rfl | hn
    · exact .inr hto
    · exact .inl hn

/-- The loop over the outgoing ids keeps the nodes and the keys of both adjacency maps. -/
lemma foldl_dropOutgoing_keys (es : List EdgeId) (g : ConcurrentGraph) :
    (es.foldl dropOutgoing g).nodes = g.nodes ∧ (es.foldl dropOutgoing g).outgoing = g.outgoing ∧
      ∀ n, n ∈ (es.foldl dropOutgoing g).incoming ↔ n ∈ g.incoming := by
  induction es generalizing g with
  | nil => exact ⟨rfl, rfl, fun _ => Iff.rfl⟩
  | cons e es ih =>
    have hround : (g.dropOutgoing e).nodes = g.nodes ∧ (g.dropOutgoing e).outgoing = g.outgoing ∧
        ∀ n, n ∈ (g.dropOutgoing e).incoming ↔ n ∈ g.incoming := by
      unfold dropOutgoing
      cases g.edges.lookup e <;> simp
    obtain ⟨hnodes, hout, hin⟩ := ih (g.dropOutgoing e)
    rw [List.foldl_cons]
    exact ⟨hnodes.trans hround.1, hout.trans hround.2.1, fun n => (hin n).trans (hround.2.2 n)⟩

/-- The loop over the incoming ids keeps the nodes and the keys of both adjacency maps. -/
lemma foldl_dropIncoming_keys (es : List EdgeId) (g : ConcurrentGraph) :
    (es.foldl dropIncoming g).nodes = g.nodes ∧ (es.foldl dropIncoming g).incoming = g.incoming ∧
      ∀ n, n ∈ (es.foldl dropIncoming g).outgoing ↔ n ∈ g.outgoing := by
  induction es generalizing g with
  | nil => exact ⟨rfl, rfl, fun _ => Iff.rfl⟩
  | cons e es ih =>
    have hround : (g.dropIncoming e).nodes = g.nodes ∧ (g.dropIncoming e).incoming = g.incoming ∧
        ∀ n, n ∈ (g.dropIncoming e).outgoing ↔ n ∈ g.outgoing := by
      unfold dropIncoming
      cases g.edges.lookup e <;> simp
    obtain ⟨hnodes, hin, hout⟩ := ih (g.dropIncoming e)
    rw [List.foldl_cons]
    exact ⟨hnodes.trans hround.1, hin.trans hround.2.1, fun n => (hout n).trans (hround.2.2 n)⟩

/-- The node deletion takes the adjacency sets of the node along. -/
lemma AdjacencyLive.deleteNode {g : ConcurrentGraph} (hg : g.AdjacencyLive) (id : NodeId) :
    (g.deleteNode id).1.AdjacencyLive := by
  unfold ConcurrentGraph.deleteNode
  cases g.nodes.lookup id with
  | none => exact hg
  | some n =>
    simp only [takeIncoming, takeOutgoing]
    set g₁ := labelIndexRemove { g with nodes := g.nodes.erase id } id n.labels
    obtain ⟨hnodes₂, hout₂, hin₂⟩ := foldl_dropOutgoing_keys
      (HashMap.getDefault g₁.outgoing id).toList { g₁ with outgoing := g₁.outgoing.erase id }
    set g₂ := (HashMap.getDefault g₁.outgoing id).toList.foldl dropOutgoing
      { g₁ with outgoing := g₁.outgoing.erase id }
    obtain ⟨hnodes₃, hin₃, hout₃⟩ := foldl_dropIncoming_keys
      (HashMap.getDefault g₂.incoming id).toList { g₂ with incoming := g₂.incoming.erase id }
    refine ⟨fun m hm => ?_, fun m hm => ?_⟩
    · rw [hout₃, hout₂] at hm
      rw [hnodes₃, hnodes₂]
      obtain ⟨hne, hm⟩ := AList.mem_erase.mp hm
      exact AList.mem_erase.mpr ⟨hne, hg.outgoing m hm⟩
    · rw [hin₃] at hm
      rw [hnodes₃, hnodes₂]
      obtain ⟨hne, hm⟩ := AList.mem_erase.mp hm
      exact AList.mem_erase.mpr ⟨hne, hg.incoming m ((hin₂ m).mp hm)⟩

/-- Every call keeps adjacency sets to live nodes. -/
theorem AdjacencyLive.apply {g : ConcurrentGraph} (hg : g.AdjacencyLive) (c : WriteCall) :
    (c.apply g).AdjacencyLive := by
  cases c with
  | createNodeWithLabels labels =>
    refine hg.mono (fun n hn => ?_) (fun n hn => ?_) (fun n hn => ?_)
    · exact (AList.mem_insert _).mpr (.inr hn)
    · rcases (AList.mem_insert _).mp hn with rfl | hn
      · exact .inr ((AList.mem_insert _).mpr (.inl rfl))
      · exact .inl hn
    · rcases (AList.mem_insert _).mp hn with rfl | hn
      · exact .inr ((AList.mem_insert _).mpr (.inl rfl))
      · exact .inl hn
  | createEdge fromNode toNode label =>
    simp only [WriteCall.apply, GraphBackend.createEdge, createEdge]
    split
    · exact hg
    · split
      · exact hg
      · rename_i hfrom hto
        exact hg.insertEdge _ (not_not.mp hfrom) (not_not.mp hto) label _ _
  | deleteNode id => exact hg.deleteNode id
  | deleteEdge id =>
    simp only [WriteCall.apply, GraphBackend.deleteEdge, deleteEdge]
    cases g.edges.lookup id with
    | none => exact hg
    | some e =>
      refine hg.mono (fun _ hn => hn) (fun n hn => .inl ?_) (fun n hn => .inl ?_)
      · exact (HashMap.mem_modify _ _ _ _).mp hn
      · exact (HashMap.mem_modify _ _ _ _).mp hn
  | setNodeProperty id key value =>
    refine hg.mono (fun n hn => ?_) (fun _ => .inl) (fun _ => .inl)
    exact (HashMap.mem_modify _ _ _ _).mpr hn
  | removeNodeProperty id key =>
    refine hg.mono (fun n hn => ?_) (fun _ => .inl) (fun _ => .inl)
    exact (HashMap.mem_modify _ _ _ _).mpr hn
  | addNodeLabel id label =>
    simp only [WriteCall.apply, GraphBackend.addNodeLabel, addNodeLabel]
    cases g.nodes.lookup id with
    | none => exact hg
    | some n =>
      simp only
      split
      · exact hg
      · exact hg.mono (fun n hn => (AList.mem_insert _).mpr (.inr hn)) (fun _ => .inl) fun _ => .inl
  | removeNodeLabel id label =>
    simp only [WriteCall.apply, GraphBackend.removeNodeLabel, removeNodeLabel]
    cases g.nodes.lookup id with
    | none => exact hg
    | some n =>
      simp only
      split
      · exact hg.mono (fun n hn => (AList.mem_insert _).mpr (.inr hn)) (fun _ => .inl) fun _ => .inl
      · exact hg
  | setEdgeProperty id key value => exact ⟨hg.outgoing, hg.incoming⟩
  | removeEdgeProperty id key => exact ⟨hg.outgoing, hg.incoming⟩
  | restoreNode id labels =>
    refine hg.mono (fun n hn => ?_) (fun n hn => ?_) (fun n hn => ?_)
    · exact (AList.mem_insert _).mpr (.inr hn)
    · rcases (HashMap.mem_ensure _ _ _).mp hn with rfl | hn
      · exact .inr ((AList.mem_insert _).mpr (.inl rfl))
      · exact .inl hn
    · rcases (HashMap.mem_ensure _ _ _).mp hn with rfl | hn
      · exact .inr ((AList.mem_insert _).mpr (.inl rfl))
      · exact .inl hn
  | restoreEdge id fromNode toNode label =>
    simp only [WriteCall.apply, GraphBackend.restoreEdge, createEdgeWithId]
    split
    · exact hg
    · split
      · exact hg
      · rename_i hfrom hto
        exact hg.insertEdge _ (not_not.mp hfrom) (not_not.mp hto) label _ _

end ConcurrentGraph

/-! ## The simulation -/

/-- What a call must respect for the follower to keep up: a node is created under an unused id, and
a value assigned to a live element survives the log. -/
def WriteCall.Replicates (J : JsonText) (g : ConcurrentGraph) : WriteCall → Prop
  | .createNodeWithLabels _ => g.nextNodeId ∉ g.nodes
  | .setNodeProperty id _ value => id ∈ g.nodes → SurvivesWal J value
  | .setEdgeProperty id _ value => id ∈ g.edges → SurvivesWal J value
  | _ => True

/-- The follower of one call: it ends with the maps of the leader. -/
theorem applyWalEntry_walEntries {J : JsonText} (hJ : J.Faithful) {g : ConcurrentGraph}
    (hg : g.AdjacencyLive) (a b : UInt64) {c : WriteCall} (hc : c.Replicates J g) :
    ∃ a' b', (RecordingGraph.walEntries J g c).foldl (applyWalEntry J) (g.withCounters a b) =
      (c.apply g).withCounters a' b' := by
  cases c with
  | createNodeWithLabels labels =>
    obtain ⟨a', h⟩ := hg.createNodeWithIdAndLabels_withCounters hc a b labels
    exact ⟨a', b, h⟩
  | createEdge fromNode toNode label =>
    simp only [RecordingGraph.walEntries, WriteCall.apply, GraphBackend.createEdge,
      ConcurrentGraph.createEdge]
    by_cases hfrom : fromNode ∈ g.nodes
    · by_cases hto : toNode ∈ g.nodes
      · obtain ⟨b', h⟩ := g.createEdgeWithId_withCounters a b g.nextEdgeId hfrom hto label
        simp only [hfrom, hto, and_self, if_true, not_true, if_false, List.foldl_cons,
          List.foldl_nil, applyWalEntry]
        exact ⟨a, b', h⟩
      · simp only [hfrom, hto, and_false, if_false, not_true, not_false_iff, if_true]
        exact ⟨a, b, rfl⟩
    · simp only [hfrom, false_and, if_false, not_false_iff, if_true]
      exact ⟨a, b, rfl⟩
  | deleteNode id =>
    refine ⟨a, b, ?_⟩
    simp only [RecordingGraph.walEntries, WriteCall.apply, GraphBackend.deleteNode]
    split
    · exact g.deleteNode_withCounters a b id
    · rename_i hid
      have hsame : (g.deleteNode id).1 = g := by
        simp [ConcurrentGraph.deleteNode, AList.lookup_eq_none.mpr hid]
      rw [hsame]
      rfl
  | deleteEdge id =>
    refine ⟨a, b, ?_⟩
    simp only [RecordingGraph.walEntries, WriteCall.apply, GraphBackend.deleteEdge]
    split
    · exact g.deleteEdge_withCounters a b id
    · rename_i hid
      have hsame : (g.deleteEdge id).1 = g := by
        simp [ConcurrentGraph.deleteEdge, AList.lookup_eq_none.mpr hid]
      rw [hsame]
      rfl
  | setNodeProperty id key value =>
    refine ⟨a, b, ?_⟩
    change (g.withCounters a b).setNodeProperty id key
      (walStringToPropertyValue J (propertyValueToWalString J value)) = _
    by_cases hid : id ∈ g.nodes
    · rw [(walStringToPropertyValue_eq_iff hJ value).mpr (hc hid)]
      rfl
    · exact congrArg (·.withCounters a b)
        ((g.setNodeProperty_of_notMem hid key _).trans (g.setNodeProperty_of_notMem hid key _).symm)
  | removeNodeProperty id key =>
    refine ⟨a, b, ?_⟩
    simp only [RecordingGraph.walEntries, WriteCall.apply, GraphBackend.removeNodeProperty]
    split
    · rfl
    · rename_i habsent
      rw [g.removeNodeProperty_of_absent (by simpa using habsent)]
      rfl
  | addNodeLabel id label =>
    refine ⟨a, b, ?_⟩
    simp only [RecordingGraph.walEntries, WriteCall.apply, GraphBackend.addNodeLabel]
    split
    · exact g.addNodeLabel_withCounters a b id label
    · rename_i hold
      rw [g.addNodeLabel_of_not_withNode hold]
      rfl
  | removeNodeLabel id label =>
    refine ⟨a, b, ?_⟩
    simp only [RecordingGraph.walEntries, WriteCall.apply, GraphBackend.removeNodeLabel]
    split
    · exact g.removeNodeLabel_withCounters a b id label
    · rename_i hlacked
      rw [g.removeNodeLabel_of_not_withNode hlacked]
      rfl
  | setEdgeProperty id key value =>
    refine ⟨a, b, ?_⟩
    change (g.withCounters a b).setEdgeProperty id key
      (walStringToPropertyValue J (propertyValueToWalString J value)) = _
    by_cases hid : id ∈ g.edges
    · rw [(walStringToPropertyValue_eq_iff hJ value).mpr (hc hid)]
      rfl
    · exact congrArg (·.withCounters a b)
        ((g.setEdgeProperty_of_notMem hid key _).trans (g.setEdgeProperty_of_notMem hid key _).symm)
  | removeEdgeProperty id key =>
    refine ⟨a, b, ?_⟩
    simp only [RecordingGraph.walEntries, WriteCall.apply, GraphBackend.removeEdgeProperty]
    split
    · rfl
    · rename_i habsent
      rw [g.removeEdgeProperty_of_absent (by simpa using habsent)]
      rfl
  | restoreNode id labels => exact ⟨ConcurrentGraph.advance a id, b, rfl⟩
  | restoreEdge id fromNode toNode label =>
    simp only [RecordingGraph.walEntries, WriteCall.apply, GraphBackend.restoreEdge,
      ConcurrentGraph.createEdgeWithId]
    by_cases hfrom : fromNode ∈ g.nodes
    · by_cases hto : toNode ∈ g.nodes
      · obtain ⟨b', h⟩ := g.createEdgeWithId_withCounters a b id hfrom hto label
        simp only [hfrom, hto, and_self, if_true, not_true, if_false, List.foldl_cons,
          List.foldl_nil, applyWalEntry]
        exact ⟨a, b', h⟩
      · simp only [hfrom, hto, and_false, if_false, not_true, not_false_iff, if_true]
        exact ⟨a, b, rfl⟩
    · simp only [hfrom, false_and, if_false, not_false_iff, if_true]
      exact ⟨a, b, rfl⟩

/-- The follower of a whole run ends with the maps of the leader. -/
theorem applyWalEntry_run {J : JsonText} (hJ : J.Faithful) {g : ConcurrentGraph}
    (hg : g.AdjacencyLive) (a b : UInt64) {calls : List WriteCall}
    (hcalls : Along WriteCall.apply (fun g c => c.Replicates J g) g calls) :
    ∃ a' b', (runRecords WriteCall.apply (RecordingGraph.walEntries J) g calls).foldl
        (applyWalEntry J) (g.withCounters a b) =
      (WriteCall.run g calls).withCounters a' b' := by
  induction calls generalizing g a b with
  | nil => exact ⟨a, b, rfl⟩
  | cons c calls ih =>
    obtain ⟨a₁, b₁, hstep⟩ := applyWalEntry_walEntries hJ hg a b hcalls.1
    obtain ⟨a₂, b₂, hrun⟩ := ih (hg.apply c) a₁ b₁ hcalls.2
    refine ⟨a₂, b₂, ?_⟩
    rw [runRecords, List.foldl_append, hstep, hrun, WriteCall.run_cons]

/-- The log a leader records while it makes `calls` from the empty graph, applied to an empty
follower, gives the leader's graph: the same node ids, label sets, typed properties and edges. -/
def FollowerReproduces (J : JsonText) (calls : List WriteCall) : Prop :=
  let leader := WriteCall.run (RecordingGraph.new J .new true) calls
  (leader.wal.foldl (applyWalEntry J) .new).content = leader.graph.content

/-- **Replication reproduces the leader.** -/
theorem follower_reproduces_leader {J : JsonText} (hJ : J.Faithful) (calls : List WriteCall)
    (hcalls : Along WriteCall.apply (fun g c => c.Replicates J g) .new calls) :
    FollowerReproduces J calls := by
  obtain ⟨a, b, hrun⟩ :=
    applyWalEntry_run hJ ConcurrentGraph.adjacencyLive_new 0 0 hcalls
  unfold FollowerReproduces
  simp only [RecordingGraph.run_eq_record, RecordingGraph.record, RecordingGraph.new,
    List.nil_append, if_true]
  have hnew : ConcurrentGraph.new.withCounters 0 0 = ConcurrentGraph.new := rfl
  rw [hnew] at hrun
  rw [hrun]
  rfl

/-- A run with every kind of call whose values survive the log. -/
def replicatedCalls : List WriteCall :=
  [.createNodeWithLabels ["P"], .createNodeWithLabels ["P", "Q"],
    .setNodeProperty 0 "name" (.string "a \"b\""), .setNodeProperty 1 "age" (.int (-7)),
    .createEdge 0 1 "R", .setEdgeProperty 0 "since" (.bool true), .removeNodeProperty 1 "age",
    .addNodeLabel 0 "Z", .removeNodeLabel 1 "Q", .removeEdgeProperty 0 "since", .deleteEdge 0,
    .deleteNode 1, .restoreNode 1 ["P"], .restoreEdge 0 0 1 "R"]

theorem follower_reproduces_replicatedCalls :
    FollowerReproduces (logJson ⟨fun _ => "0.0", fun _ => "0"⟩) replicatedCalls := by
  refine follower_reproduces_leader (logJson_faithful _) _ ?_
  refine ⟨?_, ?_, ?_, ?_, trivial, ?_, trivial, trivial, trivial, trivial, trivial, trivial,
    trivial, trivial, trivial⟩
  · change (_ : NodeId) ∉ (_ : HashMap NodeId Node)
    decide
  · change (_ : NodeId) ∉ (_ : HashMap NodeId Node)
    decide
  · exact fun _ => trivial
  · exact fun _ => trivial
  · exact fun _ => trivial

/-- A date arrives at the follower as a string. -/
theorem follower_stores_date_as_string :
    (logJson ⟨fun _ => "0.0", fun _ => "0"⟩).Faithful ∧
      ¬ FollowerReproduces (logJson ⟨fun _ => "0.0", fun _ => "0"⟩)
        [.createNodeWithLabels ["P"], .setNodeProperty 0 "born" (.date 0)] := by
  have hJ := logJson_faithful ⟨fun _ => "0.0", fun _ => "0"⟩
  refine ⟨hJ, fun h => ?_⟩
  have hprop := congrArg (fun G : GraphContent => G.nodeProp 0 "born") h
  have hdate := Option.some.inj hprop
  exact (walStringToPropertyValue_eq_iff hJ (.date 0)).mp hdate

end Maharit
