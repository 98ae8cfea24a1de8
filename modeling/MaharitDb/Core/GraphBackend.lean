import MaharitDb.Lib.AssocMap
import MaharitDb.Core.PropertyValue

/-!
# Nodes, edges and the backend interface

The elements of a graph (`maharit-core/src/graph.rs`) and the interface `GraphBackend`
(`maharit-core/src/graph_backend.rs`) through which the executor, the rollback and the mutation
recorder work on either kind of graph.
-/

namespace Maharit

/-- The id of a node, a 64-bit word. -/
abbrev NodeId := UInt64

/-- The id of an edge, a 64-bit word. -/
abbrev EdgeId := UInt64

/-- A property map. -/
abbrev Properties := HashMap String PropertyValue

/-- A node with its labels, in insertion order, and its properties. -/
structure Node where
  id : NodeId
  labels : List String
  properties : Properties

namespace Node

/-- The first label, or the empty string for a node without labels. -/
def primaryLabel (n : Node) : String := n.labels.headD ""

/-- Whether the node carries a label. -/
def hasLabel (n : Node) (label : String) : Bool := n.labels.any (· == label)

/-- Append a label; the empty label and a label already present are ignored. -/
def addLabel (n : Node) (label : String) : Node :=
  if label ≠ "" ∧ label ∉ n.labels then { n with labels := n.labels ++ [label] } else n

/-- Drop every occurrence of a label. -/
def removeLabel (n : Node) (label : String) : Node :=
  { n with labels := n.labels.filter (· != label) }

/-- Assign a property. -/
def setProperty (n : Node) (key : String) (value : PropertyValue) : Node :=
  { n with properties := n.properties.insert key value }

/-- Read a property. -/
def getProperty (n : Node) (key : String) : Option PropertyValue := n.properties.lookup key

/-- Drop a property. -/
def removeProperty (n : Node) (key : String) : Node :=
  { n with properties := n.properties.erase key }

@[simp] theorem hasLabel_iff (n : Node) (label : String) :
    n.hasLabel label = true ↔ label ∈ n.labels := by
  simp [hasLabel]

end Node

/-- An edge with its label, its endpoints and its properties. -/
structure Edge where
  id : EdgeId
  label : String
  /-- The field `from`. -/
  fromNode : NodeId
  /-- The field `to`. -/
  toNode : NodeId
  properties : Properties

namespace Edge

/-- Assign a property. -/
def setProperty (e : Edge) (key : String) (value : PropertyValue) : Edge :=
  { e with properties := e.properties.insert key value }

/-- Read a property. -/
def getProperty (e : Edge) (key : String) : Option PropertyValue := e.properties.lookup key

/-- Drop a property. -/
def removeProperty (e : Edge) (key : String) : Edge :=
  { e with properties := e.properties.erase key }

end Edge

/-- The errors of graph operations. -/
inductive GraphError where
  | nodeNotFound (id : NodeId)
  | edgeNotFound (id : EdgeId)
  deriving DecidableEq, Repr

/-- The operations a graph store offers.  A writing operation returns the new state and the
result of the call. -/
class GraphBackend (σ : Type) where
  getNode : σ → NodeId → Option Node
  nodeHasAllLabels : σ → NodeId → List String → Bool
  getNodeProperty : σ → NodeId → String → Option PropertyValue
  nodesByLabel : σ → String → List NodeId
  getEdge : σ → EdgeId → Option Edge
  nodeIds : σ → List NodeId
  allNodes : σ → List Node
  edgeIds : σ → List EdgeId
  allEdges : σ → List Edge
  outgoingEdges : σ → NodeId → List Edge
  incomingEdges : σ → NodeId → List Edge
  hasIncidentEdges : σ → NodeId → Bool
  nodeCount : σ → ℕ
  edgeCount : σ → ℕ
  containsNode : σ → NodeId → Bool
  createNodeWithLabels : σ → List String → σ × NodeId
  createEdge : σ → NodeId → NodeId → String → σ × Except GraphError EdgeId
  deleteNode : σ → NodeId → σ × Option Node
  deleteEdge : σ → EdgeId → σ × Option Edge
  setNodeProperty : σ → NodeId → String → PropertyValue → σ
  removeNodeProperty : σ → NodeId → String → σ × Option PropertyValue
  addNodeLabel : σ → NodeId → String → σ
  removeNodeLabel : σ → NodeId → String → σ
  setEdgeProperty : σ → EdgeId → String → PropertyValue → σ
  removeEdgeProperty : σ → EdgeId → String → σ × Option PropertyValue
  restoreNode : σ → NodeId → List String → σ
  restoreEdge : σ → EdgeId → NodeId → NodeId → String → σ × Except GraphError Unit

/-- A call of one of the writing operations of `GraphBackend`. -/
inductive WriteCall where
  | createNodeWithLabels (labels : List String)
  | createEdge (fromNode toNode : NodeId) (label : String)
  | deleteNode (id : NodeId)
  | deleteEdge (id : EdgeId)
  | setNodeProperty (id : NodeId) (key : String) (value : PropertyValue)
  | removeNodeProperty (id : NodeId) (key : String)
  | addNodeLabel (id : NodeId) (label : String)
  | removeNodeLabel (id : NodeId) (label : String)
  | setEdgeProperty (id : EdgeId) (key : String) (value : PropertyValue)
  | removeEdgeProperty (id : EdgeId) (key : String)
  | restoreNode (id : NodeId) (labels : List String)
  | restoreEdge (id : EdgeId) (fromNode toNode : NodeId) (label : String)
  deriving DecidableEq, Repr

namespace WriteCall

/-- The state after one call; its result is dropped. -/
def apply {σ : Type} [GraphBackend σ] (s : σ) : WriteCall → σ
  | createNodeWithLabels labels => (GraphBackend.createNodeWithLabels s labels).1
  | createEdge fromNode toNode label => (GraphBackend.createEdge s fromNode toNode label).1
  | deleteNode id => (GraphBackend.deleteNode s id).1
  | deleteEdge id => (GraphBackend.deleteEdge s id).1
  | setNodeProperty id key value => GraphBackend.setNodeProperty s id key value
  | removeNodeProperty id key => (GraphBackend.removeNodeProperty s id key).1
  | addNodeLabel id label => GraphBackend.addNodeLabel s id label
  | removeNodeLabel id label => GraphBackend.removeNodeLabel s id label
  | setEdgeProperty id key value => GraphBackend.setEdgeProperty s id key value
  | removeEdgeProperty id key => (GraphBackend.removeEdgeProperty s id key).1
  | restoreNode id labels => GraphBackend.restoreNode s id labels
  | restoreEdge id fromNode toNode label =>
      (GraphBackend.restoreEdge s id fromNode toNode label).1

/-- The state after a sequence of calls. -/
def run {σ : Type} [GraphBackend σ] (s : σ) (calls : List WriteCall) : σ :=
  calls.foldl apply s

@[simp] theorem run_nil {σ : Type} [GraphBackend σ] (s : σ) : run s [] = s := rfl

@[simp] theorem run_cons {σ : Type} [GraphBackend σ] (s : σ) (c : WriteCall)
    (calls : List WriteCall) : run s (c :: calls) = run (apply s c) calls := rfl

theorem run_append {σ : Type} [GraphBackend σ] (s : σ) (calls calls' : List WriteCall) :
    run s (calls ++ calls') = run (run s calls) calls' :=
  List.foldl_append

end WriteCall

end Maharit
