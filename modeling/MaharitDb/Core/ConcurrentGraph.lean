import MaharitDb.Core.GraphBackend

/-!
# The concurrent graph

The store behind the server (`maharit-core/src/concurrent_graph.rs`), as single-threaded code sees
it: five maps (nodes, edges, outgoing and incoming adjacency, label index) and two id counters.
The counters are 64-bit words and wrap around, `fetch_add` without notice and `id + 1` in the
release profile the repository ships.
-/

namespace Maharit

/-- The state of the concurrent graph. -/
structure ConcurrentGraph where
  nodes : HashMap NodeId Node
  edges : HashMap EdgeId Edge
  /-- Outgoing edge ids per node. -/
  outgoing : HashMap NodeId (HashSet EdgeId)
  /-- Incoming edge ids per node. -/
  incoming : HashMap NodeId (HashSet EdgeId)
  /-- The nodes carrying each label. -/
  labelIndex : HashMap String (HashSet NodeId)
  nextNodeId : UInt64
  nextEdgeId : UInt64

namespace ConcurrentGraph

/-- The empty graph. -/
def new : ConcurrentGraph where
  nodes := ∅
  edges := ∅
  outgoing := ∅
  incoming := ∅
  labelIndex := ∅
  nextNodeId := 0
  nextEdgeId := 0

/-! ## Label index maintenance -/

/-- Register `id` under each of `labels`. -/
def labelIndexAdd (g : ConcurrentGraph) (id : NodeId) (labels : List String) : ConcurrentGraph :=
  { g with
    labelIndex := (labels.foldl
      (fun ix label => HashMap.modifyDefault ix label (HashSet.add · id)) g.labelIndex) }

/-- Remove `id` from each of `labels`. -/
def labelIndexRemove (g : ConcurrentGraph) (id : NodeId) (labels : List String) :
    ConcurrentGraph :=
  { g with
    labelIndex := (labels.foldl
      (fun ix label => HashMap.modify ix label (HashSet.remove · id)) g.labelIndex) }

/-- The ids of all nodes carrying `label`, read from the index. -/
def nodesByLabel (g : ConcurrentGraph) (label : String) : List NodeId :=
  (HashMap.getDefault g.labelIndex label).toList

/-- Add a label to a node and to the index.  The index is updated whenever the node lacked the
label, also for the empty label, which `Node.addLabel` ignores. -/
def addNodeLabel (g : ConcurrentGraph) (id : NodeId) (label : String) : ConcurrentGraph :=
  match g.nodes.lookup id with
  | none => g
  | some n =>
      if n.hasLabel label then g
      else
        { g with
          nodes := g.nodes.insert id (n.addLabel label)
          labelIndex := HashMap.modifyDefault g.labelIndex label (HashSet.add · id) }

/-- Remove a label from a node and from the index. -/
def removeNodeLabel (g : ConcurrentGraph) (id : NodeId) (label : String) : ConcurrentGraph :=
  match g.nodes.lookup id with
  | none => g
  | some n =>
      if n.hasLabel label then
        { g with
          nodes := g.nodes.insert id (n.removeLabel label)
          labelIndex := HashMap.modify g.labelIndex label (HashSet.remove · id) }
      else g

/-! ## Nodes -/

/-- Create a node with several labels under the next id. -/
def createNodeWithLabels (g : ConcurrentGraph) (labels : List String) :
    ConcurrentGraph × NodeId :=
  let id := g.nextNodeId
  let g := labelIndexAdd { g with nextNodeId := g.nextNodeId + 1 } id labels
  ({ g with
      nodes := g.nodes.insert id { id := id, labels := labels, properties := ∅ }
      outgoing := g.outgoing.insert id ∅
      incoming := g.incoming.insert id ∅ }, id)

/-- Create a node with a single label; the empty label stands for no label. -/
def createNode (g : ConcurrentGraph) (label : String) : ConcurrentGraph × NodeId :=
  g.createNodeWithLabels (if label.isEmpty then [] else [label])

/-- The counter after an element was stored under a caller-chosen id. -/
def advance (next id : UInt64) : UInt64 := if next ≤ id then id + 1 else next

/-- Create a node under a caller-chosen id (log replay and rollback). -/
def createNodeWithIdAndLabels (g : ConcurrentGraph) (id : NodeId) (labels : List String) :
    ConcurrentGraph × NodeId :=
  let g := labelIndexAdd { g with nextNodeId := advance g.nextNodeId id } id labels
  ({ g with
      nodes := g.nodes.insert id { id := id, labels := labels, properties := ∅ }
      outgoing := HashMap.ensure g.outgoing id
      incoming := HashMap.ensure g.incoming id }, id)

/-- Whether a node is live. -/
def containsNode (g : ConcurrentGraph) (id : NodeId) : Bool := decide (id ∈ g.nodes)

/-- One round of the loop over the outgoing ids of a deleted node. -/
def dropOutgoing (g : ConcurrentGraph) (eid : EdgeId) : ConcurrentGraph :=
  match g.edges.lookup eid with
  | none => g
  | some edge =>
      { g with
        edges := g.edges.erase eid
        incoming := HashMap.modify g.incoming edge.toNode (HashSet.remove · eid) }

/-- One round of the loop over the incoming ids of a deleted node. -/
def dropIncoming (g : ConcurrentGraph) (eid : EdgeId) : ConcurrentGraph :=
  match g.edges.lookup eid with
  | none => g
  | some edge =>
      { g with
        edges := g.edges.erase eid
        outgoing := HashMap.modify g.outgoing edge.fromNode (HashSet.remove · eid) }

/-- Take the outgoing ids of a node and drop these edges. -/
def takeOutgoing (g : ConcurrentGraph) (id : NodeId) : ConcurrentGraph :=
  (HashMap.getDefault g.outgoing id).toList.foldl dropOutgoing
    { g with outgoing := g.outgoing.erase id }

/-- Take the incoming ids of a node and drop these edges. -/
def takeIncoming (g : ConcurrentGraph) (id : NodeId) : ConcurrentGraph :=
  (HashMap.getDefault g.incoming id).toList.foldl dropIncoming
    { g with incoming := g.incoming.erase id }

/-- Remove a node and all its incident edges. -/
def deleteNode (g : ConcurrentGraph) (id : NodeId) : ConcurrentGraph × Option Node :=
  match g.nodes.lookup id with
  | none => (g, none)
  | some node =>
      let g := labelIndexRemove { g with nodes := g.nodes.erase id } id node.labels
      ((g.takeOutgoing id).takeIncoming id, some node)

/-! ## Edges -/

/-- Store an edge and enter it into the adjacency of its endpoints. -/
def insertEdge (g : ConcurrentGraph) (id : EdgeId) (fromNode toNode : NodeId) (label : String) :
    ConcurrentGraph :=
  { g with
    edges := g.edges.insert id
      { id := id, label := label, fromNode := fromNode, toNode := toNode, properties := ∅ }
    outgoing := HashMap.modifyDefault g.outgoing fromNode (HashSet.add · id)
    incoming := HashMap.modifyDefault g.incoming toNode (HashSet.add · id) }

/-- Create an edge between two live nodes under the next id. -/
def createEdge (g : ConcurrentGraph) (fromNode toNode : NodeId) (label : String) :
    ConcurrentGraph × Except GraphError EdgeId :=
  if fromNode ∉ g.nodes then (g, .error (.nodeNotFound fromNode))
  else if toNode ∉ g.nodes then (g, .error (.nodeNotFound toNode))
  else
    let id := g.nextEdgeId
    (insertEdge { g with nextEdgeId := g.nextEdgeId + 1 } id fromNode toNode label, .ok id)

/-- Create an edge under a caller-chosen id (log replay and rollback). -/
def createEdgeWithId (g : ConcurrentGraph) (id : EdgeId) (fromNode toNode : NodeId)
    (label : String) : ConcurrentGraph × Except GraphError EdgeId :=
  if fromNode ∉ g.nodes then (g, .error (.nodeNotFound fromNode))
  else if toNode ∉ g.nodes then (g, .error (.nodeNotFound toNode))
  else
    (insertEdge { g with nextEdgeId := advance g.nextEdgeId id } id fromNode toNode label, .ok id)

/-- Remove an edge. -/
def deleteEdge (g : ConcurrentGraph) (id : EdgeId) : ConcurrentGraph × Option Edge :=
  match g.edges.lookup id with
  | none => (g, none)
  | some edge =>
      ({ g with
          edges := g.edges.erase id
          outgoing := HashMap.modify g.outgoing edge.fromNode (HashSet.remove · id)
          incoming := HashMap.modify g.incoming edge.toNode (HashSet.remove · id) }, some edge)

/-! ## Properties -/

/-- Set a property on a node, if it is live. -/
def setNodeProperty (g : ConcurrentGraph) (id : NodeId) (key : String) (value : PropertyValue) :
    ConcurrentGraph :=
  { g with nodes := HashMap.modify g.nodes id (·.setProperty key value) }

/-- Set a property on an edge, if it is live. -/
def setEdgeProperty (g : ConcurrentGraph) (id : EdgeId) (key : String) (value : PropertyValue) :
    ConcurrentGraph :=
  { g with edges := HashMap.modify g.edges id (·.setProperty key value) }

/-- Remove a property from a node, returning the old value. -/
def removeNodeProperty (g : ConcurrentGraph) (id : NodeId) (key : String) :
    ConcurrentGraph × Option PropertyValue :=
  ({ g with nodes := HashMap.modify g.nodes id (·.removeProperty key) },
    (g.nodes.lookup id).bind (·.getProperty key))

/-- Remove a property from an edge, returning the old value. -/
def removeEdgeProperty (g : ConcurrentGraph) (id : EdgeId) (key : String) :
    ConcurrentGraph × Option PropertyValue :=
  ({ g with edges := HashMap.modify g.edges id (·.removeProperty key) },
    (g.edges.lookup id).bind (·.getProperty key))

/-- The outgoing edge ids of a node. -/
def getOutgoingEdges (g : ConcurrentGraph) (id : NodeId) : List EdgeId :=
  (HashMap.getDefault g.outgoing id).toList

/-- The incoming edge ids of a node. -/
def getIncomingEdges (g : ConcurrentGraph) (id : NodeId) : List EdgeId :=
  (HashMap.getDefault g.incoming id).toList

instance : GraphBackend ConcurrentGraph where
  getNode g id := g.nodes.lookup id
  nodeHasAllLabels g id labels :=
    ((g.nodes.lookup id).map fun n => labels.all n.hasLabel).getD false
  getNodeProperty g id key := (g.nodes.lookup id).bind (·.getProperty key)
  nodesByLabel := nodesByLabel
  getEdge g id := g.edges.lookup id
  nodeIds g := g.nodes.keys
  allNodes g := g.nodes.entries.map (·.2)
  edgeIds g := g.edges.keys
  allEdges g := g.edges.entries.map (·.2)
  outgoingEdges g id := (g.getOutgoingEdges id).filterMap g.edges.lookup
  incomingEdges g id := (g.getIncomingEdges id).filterMap g.edges.lookup
  hasIncidentEdges g id := !(g.getOutgoingEdges id).isEmpty || !(g.getIncomingEdges id).isEmpty
  nodeCount g := g.nodes.entries.length
  edgeCount g := g.edges.entries.length
  containsNode := containsNode
  createNodeWithLabels := createNodeWithLabels
  createEdge := createEdge
  deleteNode := deleteNode
  deleteEdge := deleteEdge
  setNodeProperty := setNodeProperty
  removeNodeProperty := removeNodeProperty
  addNodeLabel := addNodeLabel
  removeNodeLabel := removeNodeLabel
  setEdgeProperty := setEdgeProperty
  removeEdgeProperty := removeEdgeProperty
  restoreNode g id labels := (g.createNodeWithIdAndLabels id labels).1
  restoreEdge g id fromNode toNode label :=
    let (g, r) := g.createEdgeWithId id fromNode toNode label
    (g, r.map fun _ => ())

end ConcurrentGraph

end Maharit
