import MaharitDb.Core.GraphBackend

/-!
# The slot graph

The single-owner graph (`maharit-core/src/graph.rs`): nodes and edges live in vectors indexed by
their id, deleted slots are empty and wait in a free list for the next creation.

Deleting a node iterates over two hash sets of edge ids.  Their iteration order is unspecified, and
differs between two sets with the same elements; the functions take it as a parameter, an
`IterOrder`.  A free list is kept with its next slot first.
-/

namespace Maharit

/-- An iteration order: for every hash set, its elements in some order. -/
structure IterOrder where
  /-- The elements of a set, in the order of an iteration. -/
  iter : HashSet EdgeId → List EdgeId
  /-- An iteration visits every element once. -/
  perm : ∀ s, (iter s).Perm s.toList

/-- The order in which the elements of the model's sets are listed. -/
def IterOrder.listed : IterOrder := ⟨HashSet.toList, fun _ => .refl _⟩

/-- The graph. -/
structure Graph where
  /-- The nodes, by id. -/
  nodes : List (Option Node)
  /-- The edges, by id. -/
  edges : List (Option Edge)
  /-- Outgoing edge ids, by node id. -/
  outgoingEdges : List (HashSet EdgeId)
  /-- Incoming edge ids, by node id. -/
  incomingEdges : List (HashSet EdgeId)
  nodeFreeList : List NodeId
  edgeFreeList : List EdgeId
  nodeCount : ℕ
  edgeCount : ℕ
  labelIndex : HashMap String (HashSet NodeId)

namespace Graph

/-- The empty graph. -/
def new : Graph := ⟨[], [], [], [], [], [], 0, 0, ∅⟩

/-- The node in a slot. -/
def getNode (g : Graph) (id : NodeId) : Option Node := g.nodes.getD id.toNat none

/-- The edge in a slot. -/
def getEdge (g : Graph) (id : EdgeId) : Option Edge := g.edges.getD id.toNat none

/-- The outgoing edge ids of a node. -/
def outgoing (g : Graph) (id : NodeId) : HashSet EdgeId := g.outgoingEdges.getD id.toNat ∅

/-- The incoming edge ids of a node. -/
def incoming (g : Graph) (id : NodeId) : HashSet EdgeId := g.incomingEdges.getD id.toNat ∅

/-! ## Label index maintenance -/

/-- Register the labels of a stored node. -/
def labelIndexAddNode (g : Graph) (id : NodeId) : Graph :=
  match g.getNode id with
  | none => g
  | some n =>
      { g with
        labelIndex := n.labels.foldl
          (fun ix label => HashMap.modifyDefault ix label (HashSet.add · id)) g.labelIndex }

/-- Remove a node from the index of a label; an emptied entry is dropped. -/
def labelIndexRemove (g : Graph) (id : NodeId) (label : String) : Graph :=
  match g.labelIndex.lookup label with
  | none => g
  | some set =>
      let set := set.remove id
      { g with
        labelIndex :=
          if set.toList.isEmpty then g.labelIndex.erase label else g.labelIndex.replace label set }

/-- The ids of the nodes that carry a label, from the index. -/
def nodesByLabel (g : Graph) (label : String) : List NodeId :=
  (HashMap.getDefault g.labelIndex label).toList

/-- Add a label to a node and to the index. -/
def addNodeLabel (g : Graph) (id : NodeId) (label : String) : Graph :=
  match g.getNode id with
  | none => g
  | some n =>
      if n.hasLabel label then g
      else
        { g with
          nodes := g.nodes.set id.toNat (some (n.addLabel label))
          labelIndex := HashMap.modifyDefault g.labelIndex label (HashSet.add · id) }

/-- Remove a label from a node and from the index. -/
def removeNodeLabel (g : Graph) (id : NodeId) (label : String) : Graph :=
  match g.getNode id with
  | none => g
  | some n =>
      if n.hasLabel label then
        labelIndexRemove { g with nodes := g.nodes.set id.toNat (some (n.removeLabel label)) } id label
      else g

/-! ## Nodes -/

/-- Create a node with several labels, in a freed slot or in a new one. -/
def createNodeWithLabels (g : Graph) (labels : List String) : Graph × NodeId :=
  match g.nodeFreeList with
  | freed :: rest =>
      let g := { g with
        nodeFreeList := rest
        nodes := g.nodes.set freed.toNat (some (⟨freed, labels, ∅⟩ : Node))
        outgoingEdges := g.outgoingEdges.set freed.toNat ∅
        incomingEdges := g.incomingEdges.set freed.toNat ∅
        nodeCount := g.nodeCount + 1 }
      (g.labelIndexAddNode freed, freed)
  | [] =>
      let id := UInt64.ofNat g.nodes.length
      let g := { g with
        nodes := g.nodes ++ [some (⟨id, labels, ∅⟩ : Node)]
        outgoingEdges := g.outgoingEdges ++ [∅]
        incomingEdges := g.incomingEdges ++ [∅]
        nodeCount := g.nodeCount + 1 }
      (g.labelIndexAddNode id, id)

/-- Create a node with a single label; the empty label stands for no label. -/
def createNode (g : Graph) (label : String) : Graph × NodeId :=
  g.createNodeWithLabels (if label.isEmpty then [] else [label])

/-- `Vec::resize_with`. -/
def resizeWith {α : Type} (l : List α) (len : ℕ) (v : α) : List α :=
  l.take len ++ List.replicate (len - l.length) v

/-- Extend the vectors of the node slots until they have the slot. -/
def growNodes (g : Graph) (id : NodeId) : Graph :=
  if g.nodes.length ≤ id.toNat then
    { g with
      nodes := resizeWith g.nodes (id.toNat + 1) none
      outgoingEdges := resizeWith g.outgoingEdges (id.toNat + 1) ∅
      incomingEdges := resizeWith g.incomingEdges (id.toNat + 1) ∅ }
  else g

/-- Create a node with several labels in a chosen slot; a node in the slot stays. -/
def createNodeWithIdAndLabels (g : Graph) (id : NodeId) (labels : List String) : Graph × NodeId :=
  if (g.getNode id).isSome then (g, id)
  else
    let g := g.growNodes id
    let g := { g with
      nodeFreeList := g.nodeFreeList.filter (· ≠ id)
      nodes := g.nodes.set id.toNat (some (⟨id, labels, ∅⟩ : Node))
      outgoingEdges := g.outgoingEdges.set id.toNat ∅
      incomingEdges := g.incomingEdges.set id.toNat ∅
      nodeCount := g.nodeCount + 1 }
    (g.labelIndexAddNode id, id)

/-- Create a node with a single label in a chosen slot. -/
def createNodeWithId (g : Graph) (id : NodeId) (label : String) : Graph × NodeId :=
  g.createNodeWithIdAndLabels id (if label.isEmpty then [] else [label])

/-- Set a property on a node, if there is one in the slot. -/
def setNodeProperty (g : Graph) (id : NodeId) (key : String) (value : PropertyValue) : Graph :=
  { g with nodes := g.nodes.modify id.toNat (Option.map (·.setProperty key value)) }

/-- Remove a property from a node, returning the old value. -/
def removeNodeProperty (g : Graph) (id : NodeId) (key : String) : Graph × Option PropertyValue :=
  ({ g with nodes := g.nodes.modify id.toNat (Option.map (·.removeProperty key)) },
    (g.getNode id).bind (·.getProperty key))

/-- One round of the loop over the outgoing ids of a deleted node. -/
def dropOutgoing (g : Graph) (eid : EdgeId) : Graph :=
  match g.getEdge eid with
  | none => g
  | some edge =>
      { g with
        edges := g.edges.set eid.toNat none
        incomingEdges := g.incomingEdges.modify edge.toNode.toNat (HashSet.remove · eid)
        edgeFreeList := eid :: g.edgeFreeList
        edgeCount := g.edgeCount - 1 }

/-- One round of the loop over the incoming ids of a deleted node. -/
def dropIncoming (g : Graph) (eid : EdgeId) : Graph :=
  match g.getEdge eid with
  | none => g
  | some edge =>
      { g with
        edges := g.edges.set eid.toNat none
        outgoingEdges := g.outgoingEdges.modify edge.fromNode.toNat (HashSet.remove · eid)
        edgeFreeList := eid :: g.edgeFreeList
        edgeCount := g.edgeCount - 1 }

/-- Take the outgoing ids of a node and drop these edges. -/
def takeOutgoing (order : IterOrder) (g : Graph) (id : NodeId) : Graph :=
  (order.iter (g.outgoing id)).foldl dropOutgoing
    { g with outgoingEdges := g.outgoingEdges.set id.toNat ∅ }

/-- Take the incoming ids of a node and drop these edges. -/
def takeIncoming (order : IterOrder) (g : Graph) (id : NodeId) : Graph :=
  (order.iter (g.incoming id)).foldl dropIncoming
    { g with incomingEdges := g.incomingEdges.set id.toNat ∅ }

/-- Remove a node and all its incident edges; the two sets of edge ids are iterated in the given
orders. -/
def deleteNode (outOrder inOrder : IterOrder) (g : Graph) (id : NodeId) : Graph × Option Node :=
  match g.getNode id with
  | none => (g, none)
  | some node =>
      let g := takeIncoming inOrder (takeOutgoing outOrder g id) id
      let g := { g with nodes := g.nodes.set id.toNat none }
      let g := node.labels.foldl (fun g label => g.labelIndexRemove id label) g
      ({ g with nodeFreeList := id :: g.nodeFreeList, nodeCount := g.nodeCount - 1 }, some node)

/-! ## Edges -/

/-- Create an edge between two live nodes, in a freed slot or in a new one. -/
def createEdge (g : Graph) (fromNode toNode : NodeId) (label : String) :
    Graph × Except GraphError EdgeId :=
  if (g.getNode fromNode).isNone then (g, .error (.nodeNotFound fromNode))
  else if (g.getNode toNode).isNone then (g, .error (.nodeNotFound toNode))
  else
    let (g, id) : Graph × EdgeId := match g.edgeFreeList with
      | freed :: rest =>
          ({ g with
              edgeFreeList := rest
              edges := g.edges.set freed.toNat
                (some (⟨freed, label, fromNode, toNode, ∅⟩ : Edge)) }, freed)
      | [] =>
          let id := UInt64.ofNat g.edges.length
          ({ g with edges := g.edges ++ [some (⟨id, label, fromNode, toNode, ∅⟩ : Edge)] }, id)
    ({ g with
        outgoingEdges := g.outgoingEdges.modify fromNode.toNat (HashSet.add · id)
        incomingEdges := g.incomingEdges.modify toNode.toNat (HashSet.add · id)
        edgeCount := g.edgeCount + 1 }, .ok id)

/-- Extend the vector of the edge slots until it has the slot; the slots skipped over become free. -/
def growEdges (g : Graph) (id : EdgeId) : Graph :=
  if g.edges.length ≤ id.toNat then
    { g with
      edgeFreeList := ((List.range' g.edges.length (id.toNat - g.edges.length)).map UInt64.ofNat).reverse ++
        g.edgeFreeList
      edges := resizeWith g.edges (id.toNat + 1) none }
  else g

/-- Create an edge between two live nodes in a chosen slot; an edge in the slot stays. -/
def createEdgeWithId (g : Graph) (id : EdgeId) (fromNode toNode : NodeId) (label : String) :
    Graph × Except GraphError EdgeId :=
  if (g.getNode fromNode).isNone then (g, .error (.nodeNotFound fromNode))
  else if (g.getNode toNode).isNone then (g, .error (.nodeNotFound toNode))
  else if (g.getEdge id).isSome then (g, .ok id)
  else
    let g := g.growEdges id
    ({ g with
        edgeFreeList := g.edgeFreeList.filter (· ≠ id)
        edges := g.edges.set id.toNat (some (⟨id, label, fromNode, toNode, ∅⟩ : Edge))
        outgoingEdges := g.outgoingEdges.modify fromNode.toNat (HashSet.add · id)
        incomingEdges := g.incomingEdges.modify toNode.toNat (HashSet.add · id)
        edgeCount := g.edgeCount + 1 }, .ok id)

/-- Set a property on an edge, if there is one in the slot. -/
def setEdgeProperty (g : Graph) (id : EdgeId) (key : String) (value : PropertyValue) : Graph :=
  { g with edges := g.edges.modify id.toNat (Option.map (·.setProperty key value)) }

/-- Remove a property from an edge, returning the old value. -/
def removeEdgeProperty (g : Graph) (id : EdgeId) (key : String) : Graph × Option PropertyValue :=
  ({ g with edges := g.edges.modify id.toNat (Option.map (·.removeProperty key)) },
    (g.getEdge id).bind (·.getProperty key))

/-- Remove an edge. -/
def deleteEdge (g : Graph) (id : EdgeId) : Graph × Option Edge :=
  match g.getEdge id with
  | none => (g, none)
  | some edge =>
      ({ g with
          edges := g.edges.set id.toNat none
          outgoingEdges := g.outgoingEdges.modify edge.fromNode.toNat (HashSet.remove · id)
          incomingEdges := g.incomingEdges.modify edge.toNode.toNat (HashSet.remove · id)
          edgeFreeList := id :: g.edgeFreeList
          edgeCount := g.edgeCount - 1 }, some edge)

/-- The live edges that leave a node. -/
def getOutgoingEdges (g : Graph) (id : NodeId) : List Edge :=
  (g.outgoing id).toList.filterMap g.getEdge

/-- The live edges that enter a node. -/
def getIncomingEdges (g : Graph) (id : NodeId) : List Edge :=
  (g.incoming id).toList.filterMap g.getEdge

/-- The backend operations; a deletion iterates over its sets in the given orders. -/
@[reducible] def backend (outOrder inOrder : IterOrder) : GraphBackend Graph where
  getNode := getNode
  nodeHasAllLabels g id labels := ((g.getNode id).map fun n => labels.all n.hasLabel).getD false
  getNodeProperty g id key := (g.getNode id).bind (·.getProperty key)
  nodesByLabel := nodesByLabel
  getEdge := getEdge
  nodeIds g := (g.nodes.filterMap id).map Node.id
  allNodes g := g.nodes.filterMap id
  edgeIds g := (g.edges.filterMap id).map Edge.id
  allEdges g := g.edges.filterMap id
  outgoingEdges := getOutgoingEdges
  incomingEdges := getIncomingEdges
  hasIncidentEdges g id := !(g.getOutgoingEdges id).isEmpty || !(g.getIncomingEdges id).isEmpty
  nodeCount := nodeCount
  edgeCount := edgeCount
  containsNode g id := (g.getNode id).isSome
  createNodeWithLabels := createNodeWithLabels
  createEdge := createEdge
  deleteNode := deleteNode outOrder inOrder
  deleteEdge := deleteEdge
  setNodeProperty := setNodeProperty
  removeNodeProperty := removeNodeProperty
  addNodeLabel := addNodeLabel
  removeNodeLabel := removeNodeLabel
  setEdgeProperty := setEdgeProperty
  removeEdgeProperty := removeEdgeProperty
  restoreNode g id labels := (g.createNodeWithIdAndLabels id labels).1
  restoreEdge g id fromNode toNode label :=
    let (g, r) := g.createEdgeWithId id fromNode toNode label
    (g, r.map fun _ => ())

end Graph

end Maharit
