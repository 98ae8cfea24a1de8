import MaharitDb.Core.ConcurrentGraphContent
import MaharitDb.Server.MutationLog

/-!
# Rollback restores the graph

A statement inside a transaction runs on a recorder with undo capture, its undo records are handed
to the transaction manager, and a rollback takes all of them back, newest first.

The proof follows `UndoLog`: the records of one call invert that call on the content of every
consistent graph (`inverts_apply`), hence the records of a whole transaction invert the
transaction.  The one thing a call must not do is hand out an id that is in use.  The id counters
are 64-bit words that wrap around, and an element created over a live one is deleted by the
rollback.
-/

namespace Maharit

open UndoLog GuardedRun

/-! ## The guard of a call -/

namespace WriteCall

/-- A label call carries a non-empty label. -/
def NonEmptyLabel : WriteCall → Prop
  | .addNodeLabel _ label | .removeNodeLabel _ label => label ≠ ""
  | _ => True

/-- A call that restores an element under its former id; only rollback and replay make these. -/
def IsRestore : WriteCall → Prop
  | .restoreNode _ _ | .restoreEdge _ _ _ _ => True
  | _ => False

/-- A call a transaction makes. -/
def Transactional (c : WriteCall) : Prop := c.NonEmptyLabel ∧ ¬ c.IsRestore

/-- The id under which the call stores a new element, if it stores one, is not in use. -/
def StoresUnderFreshId (g : ConcurrentGraph) : WriteCall → Prop
  | .createNodeWithLabels _ => g.nextNodeId ∉ g.nodes
  | .createEdge fromNode toNode _ => fromNode ∈ g.nodes → toNode ∈ g.nodes → g.nextEdgeId ∉ g.edges
  | .restoreNode id _ => id ∉ g.nodes
  | .restoreEdge id _ _ _ => id ∉ g.edges
  | _ => True

instance (c : WriteCall) : Decidable c.NonEmptyLabel := by
  cases c <;> unfold NonEmptyLabel <;> infer_instance

instance (c : WriteCall) : Decidable c.IsRestore := by
  cases c <;> unfold IsRestore <;> infer_instance

instance (c : WriteCall) : Decidable c.Transactional :=
  inferInstanceAs (Decidable (_ ∧ _))

instance (g : ConcurrentGraph) (c : WriteCall) : Decidable (c.StoresUnderFreshId g) := by
  cases c <;> unfold StoresUnderFreshId <;> infer_instance

end WriteCall

/-- Along a run, every new element is stored under an id that is unused at that moment. -/
def FreshIds (g : ConcurrentGraph) (calls : List WriteCall) : Prop :=
  Along WriteCall.apply (fun g c => c.StoresUnderFreshId g) g calls

instance (g : ConcurrentGraph) (calls : List WriteCall) : Decidable (FreshIds g calls) :=
  inferInstanceAs (Decidable (Along _ _ _ _))

namespace ConcurrentGraph

/-- A call with a non-empty label that stores under a fresh id keeps the graph consistent. -/
theorem Consistent.apply {g : ConcurrentGraph} (hg : g.Consistent) {c : WriteCall}
    (hlabel : c.NonEmptyLabel) (hfresh : c.StoresUnderFreshId g) : (c.apply g).Consistent := by
  cases c with
  | createNodeWithLabels labels => exact hg.createNodeWithLabels hfresh labels
  | createEdge fromNode toNode label => exact hg.createEdge fromNode toNode label hfresh
  | deleteNode id => exact hg.deleteNode id
  | deleteEdge id => exact hg.deleteEdge id
  | setNodeProperty id key value => exact hg.setNodeProperty id key value
  | removeNodeProperty id key => exact hg.removeNodeProperty id key
  | addNodeLabel id label => exact hg.addNodeLabel id hlabel
  | removeNodeLabel id label => exact hg.removeNodeLabel id label
  | setEdgeProperty id key value => exact hg.setEdgeProperty id key value
  | removeEdgeProperty id key => exact hg.removeEdgeProperty id key
  | restoreNode id labels => exact hg.createNodeWithIdAndLabels hfresh labels
  | restoreEdge id fromNode toNode label => exact hg.createEdgeWithId hfresh fromNode toNode label

/-- A run that stores under fresh ids keeps the graph consistent. -/
theorem Consistent.run {g : ConcurrentGraph} (hg : g.Consistent) {calls : List WriteCall}
    (hlabels : ∀ c ∈ calls, c.NonEmptyLabel) (hfresh : FreshIds g calls) :
    (WriteCall.run g calls).Consistent := by
  induction calls generalizing g with
  | nil => exact hg
  | cons c calls ih =>
    exact ih (hg.apply (hlabels c List.mem_cons_self) hfresh.1)
      (fun c' hc' => hlabels c' (List.mem_cons_of_mem _ hc')) hfresh.2

/-- The guard of one call of a transaction. -/
def CallGuard (g : ConcurrentGraph) (c : WriteCall) : Prop :=
  c.Transactional ∧ c.StoresUnderFreshId g

lemma along_callGuard {g : ConcurrentGraph} {calls : List WriteCall}
    (htx : ∀ c ∈ calls, c.Transactional) (hfresh : FreshIds g calls) :
    Along WriteCall.apply CallGuard g calls := by
  induction calls generalizing g with
  | nil => trivial
  | cons c calls ih =>
    exact ⟨⟨htx c List.mem_cons_self, hfresh.1⟩,
      ih (fun c' hc' => htx c' (List.mem_cons_of_mem _ hc')) hfresh.2⟩

/-! ## Taking records back -/

/-- Records invert, on consistent graphs and their content. -/
abbrev InvertsContent (log : List UndoRecord) (post pre : GraphContent) : Prop :=
  Inverts UndoRecord.undo content Consistent log post pre

/-- Putting a node's properties back one by one. -/
lemma foldl_setNodeProperty {g : ConcurrentGraph} (hg : g.Consistent) (id : NodeId)
    (entries : List (Sigma fun _ : String => PropertyValue)) :
    (entries.foldl (fun g p => g.setNodeProperty id p.1 p.2) g).Consistent ∧
      (entries.foldl (fun g p => g.setNodeProperty id p.1 p.2) g).content =
        entries.foldl (fun G p => G.setNodeProp id p.1 (some p.2)) g.content := by
  induction entries generalizing g with
  | nil => exact ⟨hg, rfl⟩
  | cons p entries ih =>
    have step := ih (hg.setNodeProperty id p.1 p.2)
    rwa [content_setNodeProperty] at step

/-- Putting an edge's properties back one by one. -/
lemma foldl_setEdgeProperty {g : ConcurrentGraph} (hg : g.Consistent) (id : EdgeId)
    (entries : List (Sigma fun _ : String => PropertyValue)) :
    (entries.foldl (fun g p => g.setEdgeProperty id p.1 p.2) g).Consistent ∧
      (entries.foldl (fun g p => g.setEdgeProperty id p.1 p.2) g).content =
        entries.foldl (fun G p => G.setEdgeProp id p.1 (some p.2)) g.content := by
  induction entries generalizing g with
  | nil => exact ⟨hg, rfl⟩
  | cons p entries ih =>
    have step := ih (hg.setEdgeProperty id p.1 p.2)
    rwa [content_setEdgeProperty] at step

/-- Taking the deletion of a node back puts its content back. -/
lemma undo_deleteNode {g : ConcurrentGraph} (hg : g.Consistent) {id : NodeId} (hid : id ∉ g.nodes)
    (n : Node) :
    (UndoRecord.undo g (.deleteNode id n.labels n.properties)).Consistent ∧
      (UndoRecord.undo g (.deleteNode id n.labels n.properties)).content =
        g.content.putNode id n.content := by
  have hrestored := hg.createNodeWithIdAndLabels hid n.labels
  obtain ⟨hcons, hcont⟩ := foldl_setNodeProperty hrestored id n.properties.entries
  refine ⟨hcons, hcont.trans ?_⟩
  rw [content_createNodeWithIdAndLabels,
    PropertyGraph.foldl_setNodeProp_putNode, HashMap.foldl_update_empty]
  rfl

/-- Taking the deletion of an edge back puts its content back. -/
lemma undo_deleteEdge {g : ConcurrentGraph} (hg : g.Consistent) (e : Edge) (hid : e.id ∉ g.edges)
    (hfrom : e.fromNode ∈ g.nodes) (hto : e.toNode ∈ g.nodes) :
    (UndoRecord.undo g (RecordingGraph.deleteEdgeRecord e)).Consistent ∧
      (UndoRecord.undo g (RecordingGraph.deleteEdgeRecord e)).content =
        g.content.putEdge e.id e.content := by
  set g' := insertEdge { g with nextEdgeId := advance g.nextEdgeId e.id } e.id e.fromNode e.toNode
    e.label with hg'
  have hrestored : g'.Consistent := (hg.withCounters _ (advance g.nextEdgeId e.id)).insertEdge hid hfrom hto e.label
  have hundo : UndoRecord.undo g (RecordingGraph.deleteEdgeRecord e) =
      e.properties.entries.foldl (fun g p => g.setEdgeProperty e.id p.1 p.2) g' := by
    simp [RecordingGraph.deleteEdgeRecord, UndoRecord.undo, GraphBackend.restoreEdge,
      createEdgeWithId, hfrom, hto, ← hg', Except.map]
    rfl
  obtain ⟨hcons, hcont⟩ := foldl_setEdgeProperty hrestored e.id e.properties.entries
  rw [hundo]
  refine ⟨hcons, hcont.trans ?_⟩
  rw [hg', content_insertEdge, PropertyGraph.foldl_setEdgeProp_putEdge,
    HashMap.foldl_update_empty]
  rfl

/-- Restoring edges one after the other: each has a new id and live endpoints. -/
lemma foldl_undo_deleteEdge {g : ConcurrentGraph} (hg : g.Consistent) (es : List Edge)
    (hnd : (es.map Edge.id).Nodup) (hids : ∀ e ∈ es, e.id ∉ g.edges)
    (hends : ∀ e ∈ es, e.fromNode ∈ g.nodes ∧ e.toNode ∈ g.nodes) :
    ((es.map RecordingGraph.deleteEdgeRecord).foldl UndoRecord.undo g).Consistent ∧
      ((es.map RecordingGraph.deleteEdgeRecord).foldl UndoRecord.undo g).content =
        g.content.putEdges (es.map fun e => (e.id, e.content)) := by
  induction es generalizing g with
  | nil => exact ⟨hg, rfl⟩
  | cons e es ih =>
    obtain ⟨hfrom, hto⟩ := hends e List.mem_cons_self
    obtain ⟨hcons, hcont⟩ := undo_deleteEdge hg e (hids e List.mem_cons_self) hfrom hto
    rw [List.map_cons, List.nodup_cons] at hnd
    set g' := UndoRecord.undo g (RecordingGraph.deleteEdgeRecord e)
    have hnodes : ∀ n, n ∈ g'.nodes ↔ n ∈ g.nodes := by
      intro n
      have h := congrFun (congrArg PropertyGraph.nodes hcont) n
      simp only [PropertyGraph.putEdge] at h
      rw [← content_nodes_isSome, h, content_nodes_isSome]
    have hedges : ∀ a, a ∈ g'.edges ↔ a = e.id ∨ a ∈ g.edges := by
      intro a
      have h := congrFun (congrArg PropertyGraph.edges hcont) a
      rw [← content_edges_isSome, h, ← content_edges_isSome]
      by_cases ha : a = e.id
      · subst ha
        simp [PropertyGraph.putEdge]
      · simp [PropertyGraph.putEdge, ha]
    have step := ih hcons hnd.2
      (fun a ha => by
        rw [hedges]
        rintro (h | h)
        · exact hnd.1 (h ▸ List.mem_map_of_mem ha)
        · exact hids a (List.mem_cons_of_mem _ ha) h)
      (fun a ha => by
        rw [hnodes, hnodes]
        exact hends a (List.mem_cons_of_mem _ ha))
    rw [hcont] at step
    exact step

/-! ## The edges a node deletion takes along -/

lemma Consistent.mem_outgoingEdges {g : ConcurrentGraph} (hg : g.Consistent) (id : NodeId)
    (e : Edge) :
    e ∈ GraphBackend.outgoingEdges g id ↔ g.edges.lookup e.id = some e ∧ e.fromNode = id := by
  simp only [GraphBackend.outgoingEdges, getOutgoingEdges, List.mem_filterMap,
    HashSet.mem_toList, hg.outgoing]
  constructor
  · rintro ⟨a, ⟨c, hc, hfrom⟩, ha⟩
    obtain rfl : c = e := Option.some_inj.mp (hc.symm.trans ha)
    rw [hg.edge_id a c hc]
    exact ⟨hc, hfrom⟩
  · rintro ⟨he, hfrom⟩
    exact ⟨e.id, ⟨e, he, hfrom⟩, he⟩

lemma Consistent.mem_incomingEdges {g : ConcurrentGraph} (hg : g.Consistent) (id : NodeId)
    (e : Edge) :
    e ∈ GraphBackend.incomingEdges g id ↔ g.edges.lookup e.id = some e ∧ e.toNode = id := by
  simp only [GraphBackend.incomingEdges, getIncomingEdges, List.mem_filterMap,
    HashSet.mem_toList, hg.incoming]
  constructor
  · rintro ⟨a, ⟨c, hc, hto⟩, ha⟩
    obtain rfl : c = e := Option.some_inj.mp (hc.symm.trans ha)
    rw [hg.edge_id a c hc]
    exact ⟨hc, hto⟩
  · rintro ⟨he, hto⟩
    exact ⟨e.id, ⟨e, he, hto⟩, he⟩

/-- The captured edges are exactly the incident ones. -/
lemma Consistent.mem_incidentEdges {g : ConcurrentGraph} (hg : g.Consistent) (id : NodeId)
    (e : Edge) :
    e ∈ RecordingGraph.incidentEdges g id ↔
      g.edges.lookup e.id = some e ∧ (e.fromNode = id ∨ e.toNode = id) := by
  simp only [RecordingGraph.incidentEdges, List.mem_append, List.mem_filter,
    hg.mem_outgoingEdges, hg.mem_incomingEdges, bne_iff_ne]
  tauto

/-- Reading stored edges by their ids gives edges with different ids. -/
lemma Consistent.nodup_map_id {g : ConcurrentGraph} (hg : g.Consistent) {ids : List EdgeId}
    (hids : ids.Nodup) : ((ids.filterMap g.edges.lookup).map Edge.id).Nodup := by
  rw [List.map_filterMap]
  refine hids.filterMap ?_
  intro a a' b ha ha'
  simp only [Option.mem_def, Option.map_eq_some_iff] at ha ha'
  obtain ⟨e, he, rfl⟩ := ha
  obtain ⟨e', he', hid⟩ := ha'
  rw [hg.edge_id a e he, hg.edge_id a' e' he'] at hid
  exact hid.symm

/-- No edge is captured twice. -/
lemma Consistent.nodup_incidentEdges {g : ConcurrentGraph} (hg : g.Consistent) (id : NodeId) :
    ((RecordingGraph.incidentEdges g id).map Edge.id).Nodup := by
  rw [RecordingGraph.incidentEdges, List.map_append, List.nodup_append]
  refine ⟨hg.nodup_map_id (HashSet.nodup_toList _), ?_, ?_⟩
  · have hin : ((GraphBackend.incomingEdges g id).map Edge.id).Nodup :=
      hg.nodup_map_id (HashSet.nodup_toList _)
    exact hin.sublist (List.filter_sublist.map _)
  · intro a ha b hb hab
    subst hab
    simp only [List.mem_map, List.mem_filter, hg.mem_outgoingEdges, hg.mem_incomingEdges,
      bne_iff_ne] at ha hb
    obtain ⟨e, ⟨he, hfrom⟩, rfl⟩ := ha
    obtain ⟨e', ⟨⟨he', -⟩, hfrom'⟩, hid⟩ := hb
    rw [hid, he] at he'
    obtain rfl := Option.some_inj.mp he'
    exact hfrom' hfrom

/-! ## The records of one call invert it -/

lemma getNodeProperty_eq_nodeProp (g : ConcurrentGraph) (id : NodeId) (key : String) :
    GraphBackend.getNodeProperty g id key = g.content.nodeProp id key := by
  simp only [GraphBackend.getNodeProperty, PropertyGraph.nodeProp, content]
  cases g.nodes.lookup id <;> rfl

lemma getEdgeProperty_eq_edgeProp (g : ConcurrentGraph) (id : EdgeId) (key : String) :
    (g.edges.lookup id).bind (·.getProperty key) = g.content.edgeProp id key := by
  simp only [PropertyGraph.edgeProp, content]
  cases g.edges.lookup id <;> rfl

/-- The record of a node property assigns the recorded value. -/
lemma undo_setProperty (g : ConcurrentGraph) (hg : g.Consistent) (id : NodeId) (key : String)
    (old : Option PropertyValue) :
    (UndoRecord.undo g (.setProperty id key old)).Consistent ∧
      (UndoRecord.undo g (.setProperty id key old)).content =
        g.content.setNodeProp id key old := by
  cases old with
  | none => exact ⟨hg.removeNodeProperty id key, content_removeNodeProperty g id key⟩
  | some v => exact ⟨hg.setNodeProperty id key v, content_setNodeProperty g id key v⟩

/-- The record of an edge property assigns the recorded value. -/
lemma undo_setEdgeProperty (g : ConcurrentGraph) (hg : g.Consistent) (id : EdgeId) (key : String)
    (old : Option PropertyValue) :
    (UndoRecord.undo g (.setEdgeProperty id key old)).Consistent ∧
      (UndoRecord.undo g (.setEdgeProperty id key old)).content =
        g.content.setEdgeProp id key old := by
  cases old with
  | none => exact ⟨hg.removeEdgeProperty id key, content_removeEdgeProperty g id key⟩
  | some v => exact ⟨hg.setEdgeProperty id key v, content_setEdgeProperty g id key v⟩

/-- A node property assignment, of a value or of none, is inverted by the former value. -/
lemma inverts_setNodeProp (g : ConcurrentGraph) (id : NodeId) (key : String)
    (v : Option PropertyValue) :
    InvertsContent [.setProperty id key (g.content.nodeProp id key)]
      (g.content.setNodeProp id key v) g.content := by
  refine inverts_singleton fun s hs hpost => ?_
  obtain ⟨hcons, hcont⟩ := undo_setProperty s hs id key (g.content.nodeProp id key)
  rw [hpost, PropertyGraph.setNodeProp_setNodeProp] at hcont
  exact ⟨hcons, hcont⟩

/-- An edge property assignment, of a value or of none, is inverted by the former value. -/
lemma inverts_setEdgeProp (g : ConcurrentGraph) (id : EdgeId) (key : String)
    (v : Option PropertyValue) :
    InvertsContent [.setEdgeProperty id key (g.content.edgeProp id key)]
      (g.content.setEdgeProp id key v) g.content := by
  refine inverts_singleton fun s hs hpost => ?_
  obtain ⟨hcons, hcont⟩ := undo_setEdgeProperty s hs id key (g.content.edgeProp id key)
  rw [hpost, PropertyGraph.setEdgeProp_setEdgeProp] at hcont
  exact ⟨hcons, hcont⟩

/-- The deletion of a node is inverted by putting the node and then its edges back. -/
lemma Consistent.inverts_deleteNode {g : ConcurrentGraph} (hg : g.Consistent) {id : NodeId}
    {n : Node} (hn : g.nodes.lookup id = some n) :
    InvertsContent
      ((RecordingGraph.incidentEdges g id).map RecordingGraph.deleteEdgeRecord ++
        [.deleteNode id n.labels n.properties])
      (g.content.deleteNode id) g.content := by
  set es := RecordingGraph.incidentEdges g id with hes
  intro s hs hpost
  rw [replay_append, replay_singleton]
  have hid : id ∉ s.nodes := by
    rw [← content_nodes_isSome, hpost]
    simp [PropertyGraph.deleteNode]
  obtain ⟨hcons, hcont⟩ := undo_deleteNode hs hid n
  set s' := UndoRecord.undo s (.deleteNode id n.labels n.properties)
  have hmem : ∀ e ∈ es, g.edges.lookup e.id = some e ∧ (e.fromNode = id ∨ e.toNode = id) :=
    fun e he => (hg.mem_incidentEdges id e).mp he
  have hnodes : ∀ m, m ∈ g.nodes → m ∈ s'.nodes := by
    intro m hm
    rw [← content_nodes_isSome, hcont, hpost]
    by_cases hmid : m = id
    · subst hmid
      simp [PropertyGraph.putNode]
    · simpa [PropertyGraph.putNode, PropertyGraph.deleteNode, hmid] using
        content_nodes_isSome.mpr hm
  have hfold := foldl_undo_deleteEdge hcons es.reverse
    (by simpa using hg.nodup_incidentEdges id)
    (by
      intro e he
      obtain ⟨hlook, hinc⟩ := hmem e (List.mem_reverse.mp he)
      rw [← content_edges_isSome, hcont, hpost]
      have hgone : (g.content.deleteNode id).edges e.id = none := by
        simp only [PropertyGraph.deleteNode, content, hlook, Option.map_some, Option.filter]
        rcases hinc with h | h <;> simp [Edge.content, h]
      simp [PropertyGraph.putNode, hgone])
    (by
      intro e he
      obtain ⟨hlook, -⟩ := hmem e (List.mem_reverse.mp he)
      obtain ⟨hfrom, hto⟩ := hg.endpoints e.id e hlook
      exact ⟨hnodes _ hfrom, hnodes _ hto⟩)
  rw [List.map_reverse] at hfold
  refine ⟨hfold.1, hfold.2.trans ?_⟩
  rw [hcont, hpost]
  refine PropertyGraph.putEdges_putNode_deleteNode g.content id n.content ?_ _ ?_ ?_
  · simp [content, hn]
  · intro p hp
    obtain ⟨e, he, rfl⟩ := List.mem_map.mp hp
    simp [content, (hmem e (List.mem_reverse.mp he)).1]
  · intro a c hc hinc
    simp only [content, Option.map_eq_some_iff] at hc
    obtain ⟨e, he, rfl⟩ := hc
    have hea : e.id = a := hg.edge_id a e he
    subst hea
    have hein : e ∈ es := (hg.mem_incidentEdges id e).mpr ⟨he, hinc⟩
    exact ⟨(e.id, e.content), List.mem_map.mpr ⟨e, List.mem_reverse.mpr hein, rfl⟩, rfl⟩

/-- A created edge is inverted by its deletion; a refused creation leaves nothing to invert. -/
lemma inverts_createEdge (g : ConcurrentGraph) (fromNode toNode : NodeId) (label : String)
    (hfresh : fromNode ∈ g.nodes → toNode ∈ g.nodes → g.nextEdgeId ∉ g.edges) :
    InvertsContent (RecordingGraph.undoRecords g (.createEdge fromNode toNode label))
      (g.createEdge fromNode toNode label).1.content g.content := by
  simp only [RecordingGraph.undoRecords, createEdge]
  by_cases hfrom : fromNode ∈ g.nodes
  · by_cases hto : toNode ∈ g.nodes
    · simp only [hfrom, hto, and_self, if_true, not_true, if_false, content_insertEdge]
      refine inverts_singleton fun s hs hpost => ⟨hs.deleteEdge _, ?_⟩
      refine (content_deleteEdge s _).trans ?_
      rw [hpost]
      exact PropertyGraph.deleteEdge_putEdge _ _ _ (content_edges_eq_none (hfresh hfrom hto))
    · simp only [hfrom, hto, and_false, if_false, not_true, not_false_iff, if_true]
      exact inverts_nil _
  · simp only [hfrom, false_and, if_false, not_false_iff, if_true]
    exact inverts_nil _

/-- A deleted edge is inverted by putting it back. -/
lemma Consistent.inverts_deleteEdge {g : ConcurrentGraph} (hg : g.Consistent) {id : EdgeId}
    {e : Edge} (he : g.edges.lookup id = some e) :
    InvertsContent [RecordingGraph.deleteEdgeRecord e] (g.content.deleteEdge id) g.content := by
  obtain rfl : e.id = id := hg.edge_id id e he
  obtain ⟨hfrom, hto⟩ := hg.endpoints e.id e he
  refine inverts_singleton fun s hs hpost => ?_
  have hnot : e.id ∉ s.edges := by
    rw [← content_edges_isSome, hpost]
    simp [PropertyGraph.deleteEdge]
  have hnodes : ∀ m, m ∈ g.nodes → m ∈ s.nodes := by
    intro m hm
    rw [← content_nodes_isSome, hpost]
    exact content_nodes_isSome.mpr hm
  obtain ⟨hcons, hcont⟩ := undo_deleteEdge hs e hnot (hnodes _ hfrom) (hnodes _ hto)
  refine ⟨hcons, hcont.trans ?_⟩
  rw [hpost]
  exact PropertyGraph.putEdge_deleteEdge _ _ _ (by simp [content, he])

/-- Adding a label is recorded exactly when it is new, and is inverted by removing it. -/
lemma inverts_addNodeLabel (g : ConcurrentGraph) (id : NodeId) {label : String}
    (hlabel : label ≠ "") :
    InvertsContent (RecordingGraph.undoRecords g (.addNodeLabel id label))
      (g.addNodeLabel id label).content g.content := by
  simp only [RecordingGraph.undoRecords]
  split
  · rename_i hnew
    rw [content_addNodeLabel g id hlabel]
    refine inverts_singleton fun s hs hpost => ⟨hs.removeNodeLabel id label, ?_⟩
    refine (content_removeNodeLabel s id label).trans ?_
    rw [hpost]
    refine PropertyGraph.removeLabel_addLabel _ _ _ fun d hd => ?_
    simp only [content, Option.map_eq_some_iff] at hd
    obtain ⟨n, hn, rfl⟩ := hd
    simp only [RecordingGraph.withNode, hn, Option.map_some, Option.getD_some,
      Bool.not_eq_true'] at hnew
    intro hmem
    rw [(n.hasLabel_iff label).mpr hmem] at hnew
    exact Bool.noConfusion hnew
  · rename_i hold
    rw [g.addNodeLabel_of_not_withNode hold]
    exact inverts_nil _

/-- Removing a label is recorded exactly when it was there, and is inverted by adding it. -/
lemma inverts_removeNodeLabel (g : ConcurrentGraph) (id : NodeId) {label : String}
    (hlabel : label ≠ "") :
    InvertsContent (RecordingGraph.undoRecords g (.removeNodeLabel id label))
      (g.removeNodeLabel id label).content g.content := by
  simp only [RecordingGraph.undoRecords]
  split
  · rename_i hhad
    rw [content_removeNodeLabel]
    refine inverts_singleton fun s hs hpost => ⟨hs.addNodeLabel id hlabel, ?_⟩
    refine (content_addNodeLabel s id hlabel).trans ?_
    rw [hpost]
    refine PropertyGraph.addLabel_removeLabel _ _ _ fun d hd => ?_
    simp only [content, Option.map_eq_some_iff] at hd
    obtain ⟨n, hn, rfl⟩ := hd
    simpa [RecordingGraph.withNode, hn, Node.content] using hhad
  · rename_i hlacked
    rw [g.removeNodeLabel_of_not_withNode hlacked]
    exact inverts_nil _

/-- The records of a guarded call invert it. -/
theorem Consistent.inverts_apply {g : ConcurrentGraph} (hg : g.Consistent) {c : WriteCall}
    (hc : CallGuard g c) :
    InvertsContent (RecordingGraph.undoRecords g c) (c.apply g).content g.content := by
  obtain ⟨⟨hlabel, hrestore⟩, hfresh⟩ := hc
  cases c with
  | createNodeWithLabels labels =>
    refine inverts_singleton fun s hs hpost => ⟨hs.deleteNode _, ?_⟩
    refine (hs.content_deleteNode _).trans ?_
    change s.content = (g.createNodeWithLabels labels).1.content at hpost
    rw [hpost, content_createNodeWithLabels]
    exact PropertyGraph.deleteNode_putNode _ hg.closed _ _ (content_nodes_eq_none hfresh)
  | createEdge fromNode toNode label => exact inverts_createEdge g fromNode toNode label hfresh
  | deleteNode id =>
    change InvertsContent _ (g.deleteNode id).1.content _
    cases hn : g.nodes.lookup id with
    | none =>
      simp only [RecordingGraph.undoRecords, ConcurrentGraph.deleteNode, hn]
      exact inverts_nil _
    | some n =>
      rw [hg.content_deleteNode]
      simp only [RecordingGraph.undoRecords, hn]
      exact hg.inverts_deleteNode hn
  | deleteEdge id =>
    change InvertsContent _ (g.deleteEdge id).1.content _
    cases he : g.edges.lookup id with
    | none =>
      simp only [RecordingGraph.undoRecords, ConcurrentGraph.deleteEdge, he]
      exact inverts_nil _
    | some e =>
      have hinv := hg.inverts_deleteEdge he
      rw [content_deleteEdge]
      simp only [RecordingGraph.undoRecords, he]
      rwa [RecordingGraph.deleteEdgeRecord, hg.edge_id id e he] at hinv
  | setNodeProperty id key value =>
    change InvertsContent [.setProperty id key _] (g.setNodeProperty id key value).content _
    rw [content_setNodeProperty, getNodeProperty_eq_nodeProp]
    exact inverts_setNodeProp g id key (some value)
  | removeNodeProperty id key =>
    change InvertsContent _ (g.removeNodeProperty id key).1.content _
    rw [content_removeNodeProperty]
    simp only [RecordingGraph.undoRecords, getNodeProperty_eq_nodeProp]
    have hinv := inverts_setNodeProp g id key none
    cases hv : g.content.nodeProp id key with
    | none =>
      rw [g.content.setNodeProp_none_eq_self id key hv]
      exact inverts_nil _
    | some v => rwa [hv] at hinv
  | addNodeLabel id label => exact inverts_addNodeLabel g id hlabel
  | removeNodeLabel id label => exact inverts_removeNodeLabel g id hlabel
  | setEdgeProperty id key value =>
    change InvertsContent [.setEdgeProperty id key _] (g.setEdgeProperty id key value).content _
    rw [content_setEdgeProperty, getEdgeProperty_eq_edgeProp]
    exact inverts_setEdgeProp g id key (some value)
  | removeEdgeProperty id key =>
    change InvertsContent _ (g.removeEdgeProperty id key).1.content _
    rw [content_removeEdgeProperty]
    simp only [RecordingGraph.undoRecords, getEdgeProperty_eq_edgeProp]
    have hinv := inverts_setEdgeProp g id key none
    cases hv : g.content.edgeProp id key with
    | none =>
      rw [g.content.setEdgeProp_none_eq_self id key hv]
      exact inverts_nil _
    | some v => rwa [hv] at hinv
  | restoreNode id labels => exact (hrestore trivial).elim
  | restoreEdge id fromNode toNode label => exact (hrestore trivial).elim

end ConcurrentGraph

/-! ## Rolling back through a recorder -/

namespace RecordingGraph

variable {J : JsonText}

/-- One call on a recorder, seen on the wrapped graph. -/
lemma apply_graph (r : RecordingGraph J) (c : WriteCall) : (c.apply r).graph = c.apply r.graph := by
  rw [apply_eq_record]
  rfl

lemma foldl_apply_graph {ι : Type} (call : ι → WriteCall) (r : RecordingGraph J) (xs : List ι) :
    (xs.foldl (fun r x => (call x).apply r) r).graph =
      xs.foldl (fun g x => (call x).apply g) r.graph := by
  induction xs generalizing r with
  | nil => rfl
  | cons x xs ih =>
    rw [List.foldl_cons, ih, apply_graph, List.foldl_cons]

/-- Taking a record back through a recorder takes it back on the wrapped graph. -/
lemma undo_graph (r : RecordingGraph J) (u : UndoRecord) :
    (u.undo r).graph = u.undo r.graph := by
  cases u with
  | createNode id => exact apply_graph r (.deleteNode id)
  | deleteNode id labels properties =>
    have hfold := foldl_apply_graph (fun p : Sigma fun _ : String => PropertyValue =>
      .setNodeProperty id p.1 p.2) (WriteCall.apply r (.restoreNode id labels)) properties.entries
    rw [apply_graph] at hfold
    exact hfold
  | setProperty id key old =>
    cases old with
    | none => exact apply_graph r (.removeNodeProperty id key)
    | some v => exact apply_graph r (.setNodeProperty id key v)
  | createEdge id => exact apply_graph r (.deleteEdge id)
  | deleteEdge id fromNode toNode label properties =>
    have hfold := fun r : RecordingGraph J =>
      foldl_apply_graph (fun p : Sigma fun _ : String => PropertyValue =>
        .setEdgeProperty id p.1 p.2) r properties.entries
    simp only [UndoRecord.undo, GraphBackend.restoreEdge, restoreEdge]
    rcases r.graph.createEdgeWithId id fromNode toNode label with ⟨g, _ | _⟩
    · rfl
    · have hgraph : (((r.withGraph g).pushWal (.createEdge id fromNode toNode label)).pushUndo
          (.createEdge id)).graph = g := by
        rw [withGraph_eq_record, pushWal_record, pushUndo_record]
        rfl
      exact (hfold _).trans (by rw [hgraph]; rfl)
  | setEdgeProperty id key old =>
    cases old with
    | none => exact apply_graph r (.removeEdgeProperty id key)
    | some v => exact apply_graph r (.setEdgeProperty id key v)
  | addLabel id label => exact apply_graph r (.removeNodeLabel id label)
  | removeLabel id label => exact apply_graph r (.addNodeLabel id label)

lemma foldl_undo_graph (r : RecordingGraph J) (log : List UndoRecord) :
    (log.foldl UndoRecord.undo r).graph = log.foldl UndoRecord.undo r.graph := by
  induction log generalizing r with
  | nil => rfl
  | cons u log ih => rw [List.foldl_cons, ih, undo_graph, List.foldl_cons]

end RecordingGraph

/-! ## Transactions -/

/-- Two graphs with the same node ids, label sets, node properties, edges with their endpoints,
labels and properties, and the same adjacency and label index contents. -/
structure ConcurrentGraph.SameStore (g g' : ConcurrentGraph) : Prop where
  content : g.content = g'.content
  outgoing : ∀ n e, e ∈ HashMap.getDefault g.outgoing n ↔ e ∈ HashMap.getDefault g'.outgoing n
  incoming : ∀ n e, e ∈ HashMap.getDefault g.incoming n ↔ e ∈ HashMap.getDefault g'.incoming n
  labelIndex : ∀ l n, n ∈ HashMap.getDefault g.labelIndex l ↔
    n ∈ HashMap.getDefault g'.labelIndex l

/-- The auxiliary maps of consistent graphs are determined by the content. -/
lemma ConcurrentGraph.Consistent.sameStore {g g' : ConcurrentGraph} (hg : g.Consistent)
    (hg' : g'.Consistent) (h : g.content = g'.content) : g.SameStore g' := by
  refine ⟨h, fun n e => ?_, fun n e => ?_, fun l n => ?_⟩
  · rw [hg.mem_outgoing_iff, hg'.mem_outgoing_iff, h]
  · rw [hg.mem_incoming_iff, hg'.mem_incoming_iff, h]
  · rw [hg.mem_labelIndex_iff, hg'.mem_labelIndex_iff, h]

/-- Execute the calls of a statement inside a transaction, on a recorder whose undo records are
handed to the manager. -/
def executeInTx (J : JsonText) (walEnabled : Bool) (tx : TxId)
    (state : TransactionManager × ConcurrentGraph) (calls : List WriteCall) :
    Except TransactionError (TransactionManager × ConcurrentGraph) := do
  let r := WriteCall.run (RecordingGraph.new J state.2 walEnabled).withUndo calls
  let tm ← state.1.recordUndo tx r.intoParts.2
  return (tm, r.graph)

/-- Handing undo records to a running transaction. -/
lemma TransactionManager.recordUndo_of_active {tm : TransactionManager} {tx : TxId}
    {t : Transaction} (ht : tm.transactions.lookup tx = some t) (hactive : t.state = .active)
    (records : List UndoRecord) :
    tm.recordUndo tx records = .ok { tm with
      transactions := tm.transactions.insert tx { t with undoLog := t.undoLog ++ records } } := by
  simp [recordUndo, getActive, getTransaction, ht, hactive, bind, Except.bind, pure, Except.pure]

/-- A transaction is running with a given undo log. -/
def TransactionManager.ActiveWith (tm : TransactionManager) (tx : TxId) (log : List UndoRecord) :
    Prop :=
  ∃ t, tm.transactions.lookup tx = some t ∧ t.state = .active ∧ t.undoLog = log

lemma TransactionManager.activeWith_begin (tm : TransactionManager) :
    tm.begin.1.ActiveWith tm.begin.2 [] := by
  simp [begin, beginWithOptions, ActiveWith]

/-- The statements of a transaction run one after the other on the graph, and their undo records
gather in the transaction's log. -/
lemma foldlM_executeInTx (J : JsonText) (walEnabled : Bool) {tx : TxId}
    (statements : List (List WriteCall)) {tm : TransactionManager} {g : ConcurrentGraph}
    {log : List UndoRecord} (htm : tm.ActiveWith tx log) :
    ∃ tm', statements.foldlM (executeInTx J walEnabled tx) (tm, g) =
        .ok (tm', WriteCall.run g statements.flatten) ∧
      tm'.ActiveWith tx
        (log ++ runRecords WriteCall.apply RecordingGraph.undoRecords g statements.flatten) := by
  induction statements generalizing tm g log with
  | nil =>
    exact ⟨tm, rfl, by simpa [runRecords] using htm⟩
  | cons calls statements ih =>
    obtain ⟨t, ht, hactive, rfl⟩ := htm
    set records := runRecords WriteCall.apply RecordingGraph.undoRecords g calls with hrecords
    set tm₁ : TransactionManager := { tm with
      transactions := tm.transactions.insert tx { t with undoLog := t.undoLog ++ records } }
    have hstep : executeInTx J walEnabled tx (tm, g) calls = .ok (tm₁, WriteCall.run g calls) := by
      simp only [executeInTx, RecordingGraph.run_eq_record, RecordingGraph.intoParts,
        RecordingGraph.record, RecordingGraph.new, RecordingGraph.withUndo, Option.map_some,
        List.nil_append, Option.getD_some, ← hrecords, tm.recordUndo_of_active ht hactive]
      rfl
    have htm₁ : tm₁.ActiveWith tx (t.undoLog ++ records) := by
      simp [tm₁, TransactionManager.ActiveWith, hactive]
    obtain ⟨tm', hrun, hactive'⟩ := ih (g := WriteCall.run g calls) htm₁
    refine ⟨tm', ?_, ?_⟩
    · rw [List.foldlM_cons, hstep, List.flatten_cons, WriteCall.run_append]
      exact hrun
    · rw [List.flatten_cons, runRecords_append, ← hrecords, ← List.append_assoc]
      exact hactive'

/-- A rollback against a backend takes the whole log back. -/
lemma TransactionManager.rollbackBackend_of_active {σ : Type} [GraphBackend σ]
    {tm : TransactionManager} {tx : TxId} {log : List UndoRecord} (htm : tm.ActiveWith tx log)
    (s : σ) :
    ∃ tm' touched, tm.rollbackBackend tx s = .ok (tm', replay UndoRecord.undo s log, touched) := by
  obtain ⟨t, ht, hactive, rfl⟩ := htm
  simp [rollbackBackend, getActive, getTransaction, ht, hactive, bind, Except.bind, pure,
    Except.pure, replay]

/-- The transaction made of `statements` is recorded, and rolling it back gives a graph with the
store of `g`, whether the rollback runs on the graph itself or through a recorder. -/
def RollbackRestores (J : JsonText) (g : ConcurrentGraph) (tm : TransactionManager)
    (statements : List (List WriteCall)) (walEnabled walEnabled' : Bool) : Prop :=
  ∃ tm' g',
    statements.foldlM (executeInTx J walEnabled tm.begin.2) (tm.begin.1, g) = .ok (tm', g') ∧
    (∃ tm'' g'' touched, tm'.rollbackBackend tm.begin.2 g' = .ok (tm'', g'', touched) ∧
      g''.SameStore g) ∧
    (∃ tm'' r touched, tm'.rollbackBackend tm.begin.2 (RecordingGraph.new J g' walEnabled') =
        .ok (tm'', r, touched) ∧
      r.graph.SameStore g)

/-- **Rollback restores the graph.**  A transaction whose statements store new elements only under
unused ids is taken back completely. -/
theorem rollback_restores (J : JsonText) {g : ConcurrentGraph} (hg : g.Consistent)
    (tm : TransactionManager) (statements : List (List WriteCall))
    (htx : ∀ calls ∈ statements, ∀ c ∈ calls, c.Transactional)
    (hfresh : FreshIds g statements.flatten) (walEnabled walEnabled' : Bool) :
    RollbackRestores J g tm statements walEnabled walEnabled' := by
  have htx' : ∀ c ∈ statements.flatten, c.Transactional := by
    intro c hc
    obtain ⟨calls, hcalls, hc⟩ := List.mem_flatten.mp hc
    exact htx calls hcalls c hc
  have hguard := ConcurrentGraph.along_callGuard htx' hfresh
  have hstep : ∀ g c, g.Consistent → ConcurrentGraph.CallGuard g c → (c.apply g).Consistent :=
    fun g c hg hc => hg.apply hc.1.1 hc.2
  have hinverts : ConcurrentGraph.InvertsContent _ _ g.content :=
    inverts_run hstep (fun g c hg hc => hg.inverts_apply hc) hg hguard
  have hend : (WriteCall.run g statements.flatten).Consistent := inv_foldl hstep hg hguard
  obtain ⟨hcons, hcont⟩ := hinverts _ hend rfl
  have hsame := hcons.sameStore hg hcont
  obtain ⟨tm', hrun, hactive⟩ :=
    foldlM_executeInTx J walEnabled statements (g := g) tm.activeWith_begin
  refine ⟨tm', _, hrun, ?_, ?_⟩
  · obtain ⟨tm'', touched, h⟩ := TransactionManager.rollbackBackend_of_active hactive
      (WriteCall.run g statements.flatten)
    exact ⟨tm'', _, touched, h, hsame⟩
  · obtain ⟨tm'', touched, h⟩ := TransactionManager.rollbackBackend_of_active hactive
      (RecordingGraph.new J (WriteCall.run g statements.flatten) walEnabled')
    refine ⟨tm'', _, touched, h, ?_⟩
    unfold replay
    rw [RecordingGraph.foldl_undo_graph]
    exact hsame

/-- A transaction that creates two nodes and an edge, changes a property, and deletes one of the
nodes with its edge. -/
def sampleTransaction : List (List WriteCall) :=
  [[.createNodeWithLabels ["P"], .createNodeWithLabels ["P", "Q"], .createEdge 0 1 "R"],
    [.setNodeProperty 0 "x" (.int 1), .removeNodeLabel 1 "Q", .deleteNode 1]]

theorem rollback_restores_sample :
    RollbackRestores (logJson ⟨fun _ => "0.0", fun _ => "0"⟩) .new .new sampleTransaction
      true true := by
  refine rollback_restores _ ConcurrentGraph.consistent_new _ _ ?_ ?_ true true
  · decide
  · decide

/-- The calls that take the node counter around: the last id is handed out, and the next one is `0`
again. -/
def wrappingCalls : List WriteCall :=
  [.createNodeWithLabels ["P"], .restoreNode 0xFFFFFFFFFFFFFFFE [], .createNodeWithLabels []]

/-- After the counter wrapped around, a transaction overwrites a live node, and its rollback deletes
that node. -/
theorem rollback_loses_overwritten_node :
    ∃ g : ConcurrentGraph, g = WriteCall.run .new wrappingCalls ∧ g.Consistent ∧
      (∀ calls ∈ [[WriteCall.createNodeWithLabels ["Q"]]], ∀ c ∈ calls, c.Transactional) ∧
      ¬ RollbackRestores (logJson ⟨fun _ => "0.0", fun _ => "0"⟩) g .new
        [[.createNodeWithLabels ["Q"]]] false false := by
  refine ⟨_, rfl, ConcurrentGraph.consistent_new.run ?_ ?_, ?_, ?_⟩
  · decide
  · decide
  · decide
  · rintro ⟨tm', g', hrun, ⟨tm'', g'', touched, hrollback, hsame⟩, -⟩
    obtain ⟨tm₁, hrun₁, hactive⟩ := foldlM_executeInTx (logJson ⟨fun _ => "0.0", fun _ => "0"⟩)
      false [[.createNodeWithLabels ["Q"]]] (g := WriteCall.run .new wrappingCalls)
      TransactionManager.new.activeWith_begin
    rw [hrun₁] at hrun
    cases hrun
    obtain ⟨tm₂, touched₂, hrollback₂⟩ :=
      TransactionManager.rollbackBackend_of_active hactive
        (WriteCall.run (WriteCall.run ConcurrentGraph.new wrappingCalls)
          [.createNodeWithLabels ["Q"]])
    have heq := hrollback₂.symm.trans hrollback
    cases heq
    have hnode : (0 : NodeId) ∈ (WriteCall.run ConcurrentGraph.new wrappingCalls).nodes := by
      decide
    rw [← ConcurrentGraph.content_nodes_isSome, ← hsame.content,
      ConcurrentGraph.content_nodes_isSome] at hnode
    exact absurd hnode (by decide)

end Maharit
