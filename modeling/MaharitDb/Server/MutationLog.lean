import MaharitDb.Lib.UndoLog
import MaharitDb.Core.ConcurrentGraph
import MaharitDb.Storage.Transaction
import MaharitDb.Server.WalEntry

/-!
# The mutation recorder

`RecordingGraph` (`maharit-server/src/mutation_log.rs`) wraps a concurrent graph and records every
mutation in execution order: as log entries for the followers, and as undo records for a
transaction.

The second half gives the recorder its specification.  A call changes the wrapped graph exactly as
the call on the plain graph does, appends `walEntries` to the log when logging is on, and appends
`undoRecords` to the undo records when these are captured.
-/

namespace Maharit

/-- A concurrent graph whose mutations are recorded. -/
structure RecordingGraph (J : JsonText) where
  graph : ConcurrentGraph
  walEnabled : Bool
  wal : List WalEntryData
  /-- `some` when undo records are captured. -/
  undo : Option (List UndoRecord)

namespace RecordingGraph

variable {J : JsonText}

/-- A recorder without undo capture. -/
def new (J : JsonText) (graph : ConcurrentGraph) (walEnabled : Bool) : RecordingGraph J :=
  ⟨graph, walEnabled, [], none⟩

/-- Also capture undo records. -/
def withUndo (r : RecordingGraph J) : RecordingGraph J := { r with undo := some [] }

/-- The recorded log entries and undo records. -/
def intoParts (r : RecordingGraph J) : List WalEntryData × List UndoRecord :=
  (r.wal, r.undo.getD [])

/-- The recorder after the wrapped graph moved on. -/
def withGraph (r : RecordingGraph J) (g : ConcurrentGraph) : RecordingGraph J :=
  { r with graph := g }

/-- Record a log entry, if logging is on. -/
def pushWal (r : RecordingGraph J) (entry : WalEntryData) : RecordingGraph J :=
  if r.walEnabled then { r with wal := r.wal ++ [entry] } else r

/-- Record an undo record, if these are captured. -/
def pushUndo (r : RecordingGraph J) (record : UndoRecord) : RecordingGraph J :=
  { r with undo := r.undo.map (· ++ [record]) }

/-- Whether undo records are captured. -/
def captureUndo (r : RecordingGraph J) : Bool := r.undo.isSome

/-- Log the assignment of a property. -/
def setPropertyWal (r : RecordingGraph J) (id : UInt64) (isNode : Bool) (key : String)
    (value : PropertyValue) : RecordingGraph J :=
  r.pushWal (.setProperty id isNode key (propertyValueToWalString J value))

/-! ## The recorded operations -/

/-- `create_node_with_labels`. -/
def createNodeWithLabels (r : RecordingGraph J) (labels : List String) :
    RecordingGraph J × NodeId :=
  let (g, id) := r.graph.createNodeWithLabels labels
  (((r.withGraph g).pushWal (.createNode id labels)).pushUndo (.createNode id), id)

/-- `create_edge`. -/
def createEdge (r : RecordingGraph J) (fromNode toNode : NodeId) (label : String) :
    RecordingGraph J × Except GraphError EdgeId :=
  match r.graph.createEdge fromNode toNode label with
  | (g, .error e) => (r.withGraph g, .error e)
  | (g, .ok id) =>
      (((r.withGraph g).pushWal (.createEdge id fromNode toNode label)).pushUndo
        (.createEdge id), .ok id)

/-- The edges that a deletion of the node takes along; a self-loop is listed once. -/
def incidentEdges (g : ConcurrentGraph) (id : NodeId) : List Edge :=
  GraphBackend.outgoingEdges g id ++
    (GraphBackend.incomingEdges g id).filter fun e => e.fromNode != id

/-- The undo record of a removed edge. -/
def deleteEdgeRecord (e : Edge) : UndoRecord :=
  .deleteEdge e.id e.fromNode e.toNode e.label e.properties

/-- `delete_node`. -/
def deleteNode (r : RecordingGraph J) (id : NodeId) : RecordingGraph J × Option Node :=
  let incident := if r.captureUndo then incidentEdges r.graph id else []
  match r.graph.deleteNode id with
  | (g, none) => (r.withGraph g, none)
  | (g, some removed) =>
      let r := (r.withGraph g).pushWal (.deleteNode id)
      let r := { r with undo := r.undo.map (· ++ incident.map deleteEdgeRecord) }
      (r.pushUndo (.deleteNode id removed.labels removed.properties), some removed)

/-- `delete_edge`. -/
def deleteEdge (r : RecordingGraph J) (id : EdgeId) : RecordingGraph J × Option Edge :=
  match r.graph.deleteEdge id with
  | (g, none) => (r.withGraph g, none)
  | (g, some removed) =>
      (((r.withGraph g).pushWal (.deleteEdge id)).pushUndo
        (.deleteEdge id removed.fromNode removed.toNode removed.label removed.properties),
        some removed)

/-- `set_node_property`. -/
def setNodeProperty (r : RecordingGraph J) (id : NodeId) (key : String) (value : PropertyValue) :
    RecordingGraph J :=
  let r :=
    if r.captureUndo then
      r.pushUndo (.setProperty id key (GraphBackend.getNodeProperty r.graph id key))
    else r
  let r := r.setPropertyWal id true key value
  r.withGraph (r.graph.setNodeProperty id key value)

/-- `remove_node_property`. -/
def removeNodeProperty (r : RecordingGraph J) (id : NodeId) (key : String) :
    RecordingGraph J × Option PropertyValue :=
  match r.graph.removeNodeProperty id key with
  | (g, none) => (r.withGraph g, none)
  | (g, some removed) =>
      (((r.withGraph g).pushWal (.removeProperty id true key)).pushUndo
        (.setProperty id key (some removed)), some removed)

/-- Whether a node is live and satisfies a test (`with_node(..).unwrap_or(false)`). -/
def withNode (g : ConcurrentGraph) (id : NodeId) (test : Node → Bool) : Bool :=
  ((g.nodes.lookup id).map test).getD false

/-- `add_node_label`. -/
def addNodeLabel (r : RecordingGraph J) (id : NodeId) (label : String) : RecordingGraph J :=
  let newlyAdded := withNode r.graph id fun n => !n.hasLabel label
  let r := r.withGraph (r.graph.addNodeLabel id label)
  if newlyAdded then (r.pushUndo (.addLabel id label)).pushWal (.addLabel id label) else r

/-- `remove_node_label`. -/
def removeNodeLabel (r : RecordingGraph J) (id : NodeId) (label : String) : RecordingGraph J :=
  let hadLabel := withNode r.graph id fun n => n.hasLabel label
  let r := r.withGraph (r.graph.removeNodeLabel id label)
  if hadLabel then (r.pushWal (.removeLabel id label)).pushUndo (.removeLabel id label) else r

/-- `set_edge_property`. -/
def setEdgeProperty (r : RecordingGraph J) (id : EdgeId) (key : String) (value : PropertyValue) :
    RecordingGraph J :=
  let r :=
    if r.captureUndo then
      r.pushUndo (.setEdgeProperty id key ((r.graph.edges.lookup id).bind (·.getProperty key)))
    else r
  let r := r.setPropertyWal id false key value
  r.withGraph (r.graph.setEdgeProperty id key value)

/-- `remove_edge_property`. -/
def removeEdgeProperty (r : RecordingGraph J) (id : EdgeId) (key : String) :
    RecordingGraph J × Option PropertyValue :=
  match r.graph.removeEdgeProperty id key with
  | (g, none) => (r.withGraph g, none)
  | (g, some removed) =>
      (((r.withGraph g).pushWal (.removeProperty id false key)).pushUndo
        (.setEdgeProperty id key (some removed)), some removed)

/-- `restore_node`. -/
def restoreNode (r : RecordingGraph J) (id : NodeId) (labels : List String) : RecordingGraph J :=
  let r := r.withGraph (r.graph.createNodeWithIdAndLabels id labels).1
  (r.pushWal (.createNode id labels)).pushUndo (.createNode id)

/-- `restore_edge`. -/
def restoreEdge (r : RecordingGraph J) (id : EdgeId) (fromNode toNode : NodeId) (label : String) :
    RecordingGraph J × Except GraphError Unit :=
  match r.graph.createEdgeWithId id fromNode toNode label with
  | (g, .error e) => (r.withGraph g, .error e)
  | (g, .ok _) =>
      (((r.withGraph g).pushWal (.createEdge id fromNode toNode label)).pushUndo
        (.createEdge id), .ok ())

instance : GraphBackend (RecordingGraph J) where
  getNode r := GraphBackend.getNode r.graph
  nodeHasAllLabels r := GraphBackend.nodeHasAllLabels r.graph
  getNodeProperty r := GraphBackend.getNodeProperty r.graph
  nodesByLabel r := GraphBackend.nodesByLabel r.graph
  getEdge r := GraphBackend.getEdge r.graph
  nodeIds r := GraphBackend.nodeIds r.graph
  allNodes r := GraphBackend.allNodes r.graph
  edgeIds r := GraphBackend.edgeIds r.graph
  allEdges r := GraphBackend.allEdges r.graph
  outgoingEdges r := GraphBackend.outgoingEdges r.graph
  incomingEdges r := GraphBackend.incomingEdges r.graph
  hasIncidentEdges r := GraphBackend.hasIncidentEdges r.graph
  nodeCount r := GraphBackend.nodeCount r.graph
  edgeCount r := GraphBackend.edgeCount r.graph
  containsNode r := GraphBackend.containsNode r.graph
  createNodeWithLabels := createNodeWithLabels
  createEdge := createEdge
  deleteNode := deleteNode
  deleteEdge := deleteEdge
  setNodeProperty := setNodeProperty
  removeNodeProperty := removeNodeProperty
  addNodeLabel := addNodeLabel
  removeNodeLabel := removeNodeLabel
  setEdgeProperty := setEdgeProperty
  removeEdgeProperty := removeEdgeProperty
  restoreNode := restoreNode
  restoreEdge := restoreEdge

/-! ## What one call records -/

/-- The undo records of one call on a graph. -/
def undoRecords (g : ConcurrentGraph) : WriteCall → List UndoRecord
  | .createNodeWithLabels _ => [.createNode g.nextNodeId]
  | .createEdge fromNode toNode _ =>
      if fromNode ∈ g.nodes ∧ toNode ∈ g.nodes then [.createEdge g.nextEdgeId] else []
  | .deleteNode id =>
      match g.nodes.lookup id with
      | none => []
      | some n =>
          (incidentEdges g id).map deleteEdgeRecord ++ [.deleteNode id n.labels n.properties]
  | .deleteEdge id =>
      match g.edges.lookup id with
      | none => []
      | some e => [.deleteEdge id e.fromNode e.toNode e.label e.properties]
  | .setNodeProperty id key _ => [.setProperty id key (GraphBackend.getNodeProperty g id key)]
  | .removeNodeProperty id key =>
      match GraphBackend.getNodeProperty g id key with
      | none => []
      | some v => [.setProperty id key (some v)]
  | .addNodeLabel id label =>
      if withNode g id fun n => !n.hasLabel label then [.addLabel id label] else []
  | .removeNodeLabel id label =>
      if withNode g id fun n => n.hasLabel label then [.removeLabel id label] else []
  | .setEdgeProperty id key _ =>
      [.setEdgeProperty id key ((g.edges.lookup id).bind (·.getProperty key))]
  | .removeEdgeProperty id key =>
      match (g.edges.lookup id).bind (·.getProperty key) with
      | none => []
      | some v => [.setEdgeProperty id key (some v)]
  | .restoreNode id _ => [.createNode id]
  | .restoreEdge id fromNode toNode _ =>
      if fromNode ∈ g.nodes ∧ toNode ∈ g.nodes then [.createEdge id] else []

/-- The log entries of one call on a graph. -/
def walEntries (J : JsonText) (g : ConcurrentGraph) : WriteCall → List WalEntryData
  | .createNodeWithLabels labels => [.createNode g.nextNodeId labels]
  | .createEdge fromNode toNode label =>
      if fromNode ∈ g.nodes ∧ toNode ∈ g.nodes then
        [.createEdge g.nextEdgeId fromNode toNode label]
      else []
  | .deleteNode id => if id ∈ g.nodes then [.deleteNode id] else []
  | .deleteEdge id => if id ∈ g.edges then [.deleteEdge id] else []
  | .setNodeProperty id key value =>
      [.setProperty id true key (propertyValueToWalString J value)]
  | .removeNodeProperty id key =>
      if (GraphBackend.getNodeProperty g id key).isSome then [.removeProperty id true key] else []
  | .addNodeLabel id label =>
      if withNode g id fun n => !n.hasLabel label then [.addLabel id label] else []
  | .removeNodeLabel id label =>
      if withNode g id fun n => n.hasLabel label then [.removeLabel id label] else []
  | .setEdgeProperty id key value =>
      [.setProperty id false key (propertyValueToWalString J value)]
  | .removeEdgeProperty id key =>
      if ((g.edges.lookup id).bind (·.getProperty key)).isSome then [.removeProperty id false key]
      else []
  | .restoreNode id labels => [.createNode id labels]
  | .restoreEdge id fromNode toNode label =>
      if fromNode ∈ g.nodes ∧ toNode ∈ g.nodes then [.createEdge id fromNode toNode label] else []

/-- The recorder after the wrapped graph moved to `g` and entries and records were appended. -/
def record (r : RecordingGraph J) (g : ConcurrentGraph) (entries : List WalEntryData)
    (records : List UndoRecord) : RecordingGraph J where
  graph := g
  walEnabled := r.walEnabled
  wal := r.wal ++ if r.walEnabled then entries else []
  undo := r.undo.map (· ++ records)

lemma withGraph_eq_record (r : RecordingGraph J) (g : ConcurrentGraph) :
    r.withGraph g = r.record g [] [] := by
  simp [withGraph, record]

lemma pushWal_record (r : RecordingGraph J) (g : ConcurrentGraph) (entries : List WalEntryData)
    (records : List UndoRecord) (entry : WalEntryData) :
    (r.record g entries records).pushWal entry = r.record g (entries ++ [entry]) records := by
  unfold pushWal record
  split <;> simp_all

lemma pushUndo_record (r : RecordingGraph J) (g : ConcurrentGraph) (entries : List WalEntryData)
    (records : List UndoRecord) (u : UndoRecord) :
    (r.record g entries records).pushUndo u = r.record g entries (records ++ [u]) := by
  simp [pushUndo, record, Function.comp_def]

/-- The specification of the recorder. -/
theorem apply_eq_record (r : RecordingGraph J) (c : WriteCall) :
    c.apply r = r.record (c.apply r.graph) (walEntries J r.graph c) (undoRecords r.graph c) := by
  cases c with
  | createNodeWithLabels labels =>
    simp only [WriteCall.apply, GraphBackend.createNodeWithLabels, createNodeWithLabels,
      withGraph_eq_record, pushWal_record, pushUndo_record]
    rfl
  | createEdge fromNode toNode label =>
    simp only [WriteCall.apply, GraphBackend.createEdge, createEdge, ConcurrentGraph.createEdge,
      walEntries, undoRecords]
    by_cases hfrom : fromNode ∈ r.graph.nodes
    · by_cases hto : toNode ∈ r.graph.nodes
      · simp [hfrom, hto, withGraph_eq_record, pushWal_record, pushUndo_record]
      · simp [hfrom, hto, withGraph_eq_record]
    · simp [hfrom, withGraph_eq_record]
  | deleteNode id =>
    simp only [WriteCall.apply, GraphBackend.deleteNode, deleteNode, ConcurrentGraph.deleteNode,
      walEntries, undoRecords]
    cases hn : r.graph.nodes.lookup id with
    | none =>
      have hid : id ∉ r.graph.nodes := AList.lookup_eq_none.mp hn
      simp [hid, withGraph_eq_record]
    | some n =>
      have hid : id ∈ r.graph.nodes := (HashMap.mem_iff_exists _ _).mpr ⟨n, hn⟩
      simp only [hid, if_true, withGraph_eq_record, pushWal_record, List.nil_append]
      -- The incident edges are only collected when undo records are captured at all.
      cases hu : r.undo with
      | none => simp [record, pushUndo, hu]
      | some u => simp [record, pushUndo, captureUndo, hu]
  | deleteEdge id =>
    simp only [WriteCall.apply, GraphBackend.deleteEdge, deleteEdge, ConcurrentGraph.deleteEdge,
      walEntries, undoRecords]
    cases he : r.graph.edges.lookup id with
    | none =>
      have hid : id ∉ r.graph.edges := AList.lookup_eq_none.mp he
      simp [hid, withGraph_eq_record]
    | some e =>
      have hid : id ∈ r.graph.edges := (HashMap.mem_iff_exists _ _).mpr ⟨e, he⟩
      simp [hid, withGraph_eq_record, pushWal_record, pushUndo_record]
  | setNodeProperty id key value =>
    obtain ⟨g, enabled, wal, undo⟩ := r
    simp only [WriteCall.apply, GraphBackend.setNodeProperty, setNodeProperty, walEntries,
      undoRecords]
    cases undo <;> cases enabled <;>
      simp [captureUndo, setPropertyWal, pushWal, pushUndo, withGraph, record]
  | removeNodeProperty id key =>
    simp only [WriteCall.apply, GraphBackend.removeNodeProperty, removeNodeProperty,
      ConcurrentGraph.removeNodeProperty, GraphBackend.getNodeProperty, walEntries, undoRecords]
    rcases Option.eq_none_or_eq_some ((r.graph.nodes.lookup id).bind (·.getProperty key)) with
      hv | ⟨v, hv⟩
    · simp only [hv, Option.isSome_none, Bool.false_eq_true, if_false, withGraph_eq_record]
    · simp only [hv, Option.isSome_some, if_true, withGraph_eq_record, pushWal_record,
        pushUndo_record, List.nil_append]
  | addNodeLabel id label =>
    simp only [WriteCall.apply, GraphBackend.addNodeLabel, addNodeLabel, walEntries, undoRecords]
    split <;> simp [withGraph_eq_record, pushWal_record, pushUndo_record]
  | removeNodeLabel id label =>
    simp only [WriteCall.apply, GraphBackend.removeNodeLabel, removeNodeLabel, walEntries,
      undoRecords]
    split <;> simp [withGraph_eq_record, pushWal_record, pushUndo_record]
  | setEdgeProperty id key value =>
    obtain ⟨g, enabled, wal, undo⟩ := r
    simp only [WriteCall.apply, GraphBackend.setEdgeProperty, setEdgeProperty, walEntries,
      undoRecords]
    cases undo <;> cases enabled <;>
      simp [captureUndo, setPropertyWal, pushWal, pushUndo, withGraph, record]
  | removeEdgeProperty id key =>
    simp only [WriteCall.apply, GraphBackend.removeEdgeProperty, removeEdgeProperty,
      ConcurrentGraph.removeEdgeProperty, walEntries, undoRecords]
    rcases Option.eq_none_or_eq_some ((r.graph.edges.lookup id).bind (·.getProperty key)) with
      hv | ⟨v, hv⟩
    · simp only [hv, Option.isSome_none, Bool.false_eq_true, if_false, withGraph_eq_record]
    · simp only [hv, Option.isSome_some, if_true, withGraph_eq_record, pushWal_record,
        pushUndo_record, List.nil_append]
  | restoreNode id labels =>
    simp only [WriteCall.apply, GraphBackend.restoreNode, restoreNode,
      withGraph_eq_record, pushWal_record, pushUndo_record]
    rfl
  | restoreEdge id fromNode toNode label =>
    simp only [WriteCall.apply, GraphBackend.restoreEdge, restoreEdge,
      ConcurrentGraph.createEdgeWithId, walEntries, undoRecords]
    by_cases hfrom : fromNode ∈ r.graph.nodes
    · by_cases hto : toNode ∈ r.graph.nodes
      · simp [hfrom, hto, withGraph_eq_record, pushWal_record, pushUndo_record]
      · simp [hfrom, hto, withGraph_eq_record]
    · simp [hfrom, withGraph_eq_record]

/-- Recording a sequence of calls runs them on the wrapped graph and appends what each of them
records. -/
theorem run_eq_record (r : RecordingGraph J) (calls : List WriteCall) :
    WriteCall.run r calls = r.record (WriteCall.run r.graph calls)
      (UndoLog.runRecords WriteCall.apply (walEntries J) r.graph calls)
      (UndoLog.runRecords WriteCall.apply undoRecords r.graph calls) := by
  induction calls generalizing r with
  | nil => exact withGraph_eq_record r r.graph
  | cons c calls ih =>
    rw [WriteCall.run_cons, apply_eq_record, ih]
    obtain ⟨g, enabled, wal, undo⟩ := r
    cases enabled <;> simp [record, UndoLog.runRecords, Function.comp_def]

/-- A recorder changes the wrapped graph as the plain calls do. -/
theorem run_graph (r : RecordingGraph J) (calls : List WriteCall) :
    (WriteCall.run r calls).graph = WriteCall.run r.graph calls := by
  rw [run_eq_record]
  rfl

end RecordingGraph

/-! ## Label calls that are not recorded -/

namespace ConcurrentGraph

/-- A label that is not newly added changes nothing. -/
lemma addNodeLabel_of_not_withNode (g : ConcurrentGraph) {id : NodeId}
    {label : String} (h : ¬ RecordingGraph.withNode g id fun n => !n.hasLabel label) :
    g.addNodeLabel id label = g := by
  unfold addNodeLabel
  cases hn : g.nodes.lookup id with
  | none => rfl
  | some n =>
    simp only [RecordingGraph.withNode, hn, Option.map_some, Option.getD_some, Bool.not_eq_true',
      Bool.not_eq_false] at h
    simp [h]

/-- A label that was not there is not removed. -/
lemma removeNodeLabel_of_not_withNode (g : ConcurrentGraph) {id : NodeId}
    {label : String} (h : ¬ RecordingGraph.withNode g id fun n => n.hasLabel label) :
    g.removeNodeLabel id label = g := by
  unfold removeNodeLabel
  cases hn : g.nodes.lookup id with
  | none => rfl
  | some n =>
    simp only [RecordingGraph.withNode, hn, Option.map_some, Option.getD_some] at h
    simp [h]

end ConcurrentGraph

end Maharit
