import MaharitDb.Core.CalendarText
import MaharitDb.Io.Records
import MaharitDb.Lib.MapEntries

/-!
# Graphs as JSON

`maharit-io/src/json_io.rs`: a graph is exported as a list of nodes and a list of edges, or as a list of nodes each with
its outgoing edges, and imported from either.  How a document is written as text and read again is left to
`serde_json`.
-/

namespace Maharit

namespace Io

/-! ## Documents -/

/-- `serde_json::Number`. -/
inductive JsonNumber where
  | posInt (n : UInt64)
  | negInt (n : Int64)
  | float (x : F64)
  deriving DecidableEq, Repr

namespace JsonNumber

/-- `Number::from(i64)`. -/
def ofInt64 (n : Int64) : JsonNumber := if n < 0 then .negInt n else .posInt n.toUInt64

/-- `as_i64`. -/
def asI64 : JsonNumber → Option Int64
  | .posInt n => if n.toNat < 2 ^ 63 then some n.toInt64 else none
  | .negInt n => some n
  | .float _ => none

/-- `as_f64`. -/
def asF64 : JsonNumber → F64
  | .posInt n => F64.ofNat n.toNat
  | .negInt n => F64.ofInt64 n
  | .float x => x

lemma asI64_ofInt64 (n : Int64) : (ofInt64 n).asI64 = some n := by
  unfold ofInt64
  by_cases hneg : n < 0
  · rw [if_pos hneg]
    rfl
  · have hnonneg : 0 ≤ n.toInt := by
      have hle : ¬ n.toInt < 0 := fun hlt => hneg (Int64.lt_iff_toInt_lt.mpr hlt)
      omega
    have hnat : n.toUInt64.toNat = n.toInt.toNat := by
      have hlt := n.toInt_lt
      rw [← Int64.toNatClampNeg, ← Int64.toNat_toUInt64_of_le (Int64.le_iff_toInt_le.mpr hnonneg)]
    have hlt := n.toInt_lt
    rw [if_neg hneg, asI64, if_pos (by omega)]
    simp

end JsonNumber

/-- `serde_json::Value`; of an array or an object only the text is used. -/
inductive JsonValue where
  | null
  | bool (b : Bool)
  | number (n : JsonNumber)
  | string (s : String)
  | nested (text : String)
  deriving DecidableEq, Repr

abbrev JsonProperties := HashMap String JsonValue

structure JsonNode where
  id : String
  label : String
  properties : JsonProperties

structure JsonEdge where
  fromId : String
  toId : String
  edgeType : String
  properties : JsonProperties

structure JsonGraph where
  nodes : List JsonNode
  edges : List JsonEdge

structure AdjacencyEdge where
  toId : String
  edgeType : String
  properties : JsonProperties

structure AdjacencyNode where
  id : String
  label : String
  properties : JsonProperties
  edges : List AdjacencyEdge

structure AdjacencyGraph where
  nodes : List AdjacencyNode

/-- What `serde_json` does with the two kinds of documents. -/
structure SerdeJson where
  toWriterPretty : JsonGraph → String
  fromReader : String → Except String JsonGraph
  adjacencyToWriterPretty : AdjacencyGraph → String
  adjacencyFromReader : String → Except String AdjacencyGraph

/-! ## Export -/

/-- `property_to_json`. -/
def propertyToJson : PropertyValue → JsonValue
  | .null => .null
  | .bool b => .bool b
  | .int n => .number (.ofInt64 n)
  | .float x => if x.isFinite then .number (.float x) else .null
  | .string s => .string s
  | .date days => .string (Temporal.dateToString days)
  | .dateTime ms => .string (Temporal.dateTimeToString ms)
  | .duration months days millis => .string (Temporal.durationToString months days millis)

/-- `node.id.to_string()`. -/
def idText (id : UInt64) : String := toString id.toNat

def jsonNode (n : Node) : JsonNode :=
  ⟨idText n.id, Backup.joinLabels n.labels, HashMap.collect propertyToJson n.properties⟩

def jsonEdge (e : Edge) : JsonEdge :=
  ⟨idText e.fromNode, idText e.toNode, e.label, HashMap.collect propertyToJson e.properties⟩

/-- `to_json_graph`. -/
def toJsonGraph (g : Graph) : JsonGraph := ⟨(g.nodes.filterMap id).map jsonNode, (g.edges.filterMap id).map jsonEdge⟩

/-- `export`. -/
def exportJson (serde : SerdeJson) (g : Graph) : String := serde.toWriterPretty (toJsonGraph g)

def adjacencyEdge (e : Edge) : AdjacencyEdge :=
  ⟨idText e.toNode, e.label, HashMap.collect propertyToJson e.properties⟩

/-- A node with the edges that start at it. -/
def adjacencyNode (g : Graph) (n : Node) : AdjacencyNode :=
  ⟨idText n.id, Backup.joinLabels n.labels, HashMap.collect propertyToJson n.properties,
    ((g.edges.filterMap id).filter fun e => e.fromNode = n.id).map adjacencyEdge⟩

/-- `to_adjacency_graph`. -/
def toAdjacencyGraph (g : Graph) : AdjacencyGraph := ⟨(g.nodes.filterMap id).map (adjacencyNode g)⟩

/-- `export_adjacency`. -/
def exportAdjacency (serde : SerdeJson) (g : Graph) : String := serde.adjacencyToWriterPretty (toAdjacencyGraph g)

/-! ## Import -/

/-- `json_to_property`. -/
def jsonToProperty : JsonValue → PropertyValue
  | .null => .null
  | .bool b => .bool b
  | .number n =>
    match n.asI64 with
    | some i => .int i
    | none => .float n.asF64
  | .string s => .string s
  | .nested text => .string text

/-- The properties that an importer sets. -/
def jsonEntries (properties : JsonProperties) : Entries := properties.entries.map fun p => ⟨p.1, jsonToProperty p.2⟩

structure ImportStats where
  nodesImported : ℕ
  edgesImported : ℕ

def importNode (b : Building) (n : JsonNode) : Building :=
  addNode b n.id (Backup.splitLabels n.label) (jsonEntries n.properties)

def importEdge (idMap : HashMap String NodeId) (g : Graph) (e : JsonEdge) : Except IoError Graph := do
  let fromId ← findNode idMap e.fromId
  let toId ← findNode idMap e.toId
  (addEdge g fromId toId e.edgeType (jsonEntries e.properties)).mapError .graph

/-- `import`. -/
def importJson (serde : SerdeJson) (g : Graph) (text : String) : Except IoError (Graph × ImportStats) := do
  let jsonGraph ← (serde.fromReader text).mapError .json
  let b := jsonGraph.nodes.foldl importNode (g, ∅)
  let g ← jsonGraph.edges.foldlM (importEdge b.2) b.1
  return (g, ⟨jsonGraph.nodes.length, jsonGraph.edges.length⟩)

def importAdjacencyNode (b : Building) (n : AdjacencyNode) : Building :=
  addNode b n.id (Backup.splitLabels n.label) (jsonEntries n.properties)

def importAdjacencyEdge (idMap : HashMap String NodeId) (fromId : NodeId) (g : Graph) (e : AdjacencyEdge) :
    Except IoError Graph := do
  let toId ← findNode idMap e.toId
  (addEdge g fromId toId e.edgeType (jsonEntries e.properties)).mapError .graph

/-- The edges of a node; the node was created before, so `unwrap` finds it. -/
def importAdjacencyEdges (idMap : HashMap String NodeId) (g : Graph) (n : AdjacencyNode) : Except IoError Graph :=
  match idMap.lookup n.id with
  | some fromId => n.edges.foldlM (importAdjacencyEdge idMap fromId) g
  | none => .ok g

/-- `import_adjacency`. -/
def importAdjacency (serde : SerdeJson) (g : Graph) (text : String) : Except IoError (Graph × ImportStats) := do
  let adjGraph ← (serde.adjacencyFromReader text).mapError .json
  let b := adjGraph.nodes.foldl importAdjacencyNode (g, ∅)
  let g ← adjGraph.nodes.foldlM (importAdjacencyEdges b.2) b.1
  return (g, ⟨adjGraph.nodes.length, (adjGraph.nodes.map fun n => n.edges.length).sum⟩)

end Io

end Maharit
