import MaharitDb.Core.ConcurrentGraph
import MaharitDb.Storage.BackupCopy
import MaharitDb.Storage.SnapshotCodec

/-!
# Database files

Saving a graph to a file and loading it (`maharit-storage/src/persistence.rs`).  A file of the current
version is a header and a snapshot payload with its length; files of three older versions are still
read.  Loading creates the elements one after the other in an empty graph, and the map from the old
to the new node ids translates the endpoints of the edges.

Both kinds of graph are saved and loaded alike.  `LoadTarget` has the operations that are used of a
graph, and a graph is saved as the list of its nodes and of its edges, in the order in which the graph
iterates over them: the slots of a `Graph` in ascending order, the maps of a `ConcurrentGraph` in the
order of the maps.
-/

namespace Maharit

open WalCodec

/-- The errors of persistence.  `unexpectedEof` is the input error that a reader meets; `panic` stands
for the decoder leaving its slice. -/
inductive PersistenceError where
  | unexpectedEof
  | invalidMagic
  | unsupportedVersion (version : UInt32)
  | corruptedData (message : String)
  | graph (error : GraphError)
  | panic
  deriving DecidableEq, Repr

/-- The errors of the readers that backups have too, with the same texts. -/
def PersistenceError.ofBackup : BackupError → PersistenceError
  | .unexpectedEof => .unexpectedEof
  | .decoder => .unexpectedEof
  | .invalidMagic => .invalidMagic
  | .unsupportedVersion version => .unsupportedVersion version
  | .corruptedData message => .corruptedData message
  | .graph error => .graph error
  | .wal message => .corruptedData message

/-- How the decoder of the payload fails. -/
def PersistenceError.ofFailure : ByteDecoder.Failure → PersistenceError
  | .message text => .corruptedData text
  | .panic => .panic

/-- The operations of a graph that loading uses, and how its elements are read. -/
structure LoadTarget (G : Type) where
  new : G
  createNodeWithLabels : G → List String → G × NodeId
  createEdge : G → NodeId → NodeId → String → G × Except GraphError EdgeId
  setNodeProperty : G → NodeId → String → PropertyValue → G
  setEdgeProperty : G → EdgeId → String → PropertyValue → G
  getNode : G → NodeId → Option Node
  getEdge : G → EdgeId → Option Edge

/-- Loading into a `Graph`. -/
def Graph.target : LoadTarget Graph where
  new := .new
  createNodeWithLabels := Graph.createNodeWithLabels
  createEdge := Graph.createEdge
  setNodeProperty := Graph.setNodeProperty
  setEdgeProperty := Graph.setEdgeProperty
  getNode := Graph.getNode
  getEdge := Graph.getEdge

/-- Loading into a `ConcurrentGraph`. -/
def ConcurrentGraph.target : LoadTarget ConcurrentGraph where
  new := .new
  createNodeWithLabels := ConcurrentGraph.createNodeWithLabels
  createEdge := ConcurrentGraph.createEdge
  setNodeProperty := ConcurrentGraph.setNodeProperty
  setEdgeProperty := ConcurrentGraph.setEdgeProperty
  getNode g := g.nodes.lookup
  getEdge g := g.edges.lookup

/-- The nodes of a graph, in the order of its slots. -/
def Graph.liveNodes (g : Graph) : List Node := g.nodes.filterMap id

/-- The edges of a graph, in the order of its slots. -/
def Graph.liveEdges (g : Graph) : List Edge := g.edges.filterMap id

/-- The nodes of a concurrent graph, in the iteration order of their map. -/
def ConcurrentGraph.liveNodes (g : ConcurrentGraph) : List Node := g.nodes.entries.map (·.2)

/-- The edges of a concurrent graph, in the iteration order of their map. -/
def ConcurrentGraph.liveEdges (g : ConcurrentGraph) : List Edge := g.edges.entries.map (·.2)

namespace PersistentStorage

/-- `MAHARITD`. -/
def magic : Bytes := [77, 65, 72, 65, 82, 73, 84, 68]

def version : UInt32 := 4

/-! ## Saving -/

def sNode (n : Node) : SNode := ⟨n.id, n.labels, n.properties⟩

def sEdge (e : Edge) : SEdge := ⟨e.id, e.label, e.fromNode, e.toNode, e.properties⟩

/-- The snapshot that is written. -/
def snapshotOf (nodes : List Node) (edges : List Edge) (indexes : List SIndex) : SSnapshot :=
  ⟨nodes.map sNode, edges.map sEdge, indexes⟩

/-- The file of a snapshot: the header, the length of the payload and the payload. -/
def fileOf (s : SSnapshot) : Bytes :=
  magic ++ (u32Bytes version ++
    (u64Bytes (UInt64.ofNat (SnapshotCodec.encode s).length) ++ SnapshotCodec.encode s))

/-- `save_with_index`, with the definitions of the index. -/
def saveWithIndex (g : Graph) (indexes : List SIndex) : Bytes :=
  fileOf (snapshotOf g.liveNodes g.liveEdges indexes)

/-- `save`. -/
def save (g : Graph) : Bytes := saveWithIndex g []

/-- `save_concurrent`. -/
def saveConcurrent (g : ConcurrentGraph) : Bytes := fileOf (snapshotOf g.liveNodes g.liveEdges [])

/-! ## Loading a snapshot -/

section Load

variable {G : Type} (t : LoadTarget G)

/-- Assign properties to a node. -/
def setNodeProperties (g : G) (id : NodeId) (props : Properties) : G :=
  props.entries.foldl (fun g p => t.setNodeProperty g id p.1 p.2) g

/-- Assign properties to an edge. -/
def setEdgeProperties (g : G) (id : EdgeId) (props : Properties) : G :=
  props.entries.foldl (fun g p => t.setEdgeProperty g id p.1 p.2) g

/-- One round of the loop over the nodes: the graph, and the map from the old to the new node ids. -/
def loadNode (r : G × HashMap NodeId NodeId) (n : SNode) : G × HashMap NodeId NodeId :=
  let (g, newId) := t.createNodeWithLabels r.1 n.labels
  (setNodeProperties t g newId n.properties, r.2.insert n.id newId)

/-- One round of the loop over the edges. -/
def loadEdge (idMap : HashMap NodeId NodeId) (g : G) (e : SEdge) : Except PersistenceError G :=
  match idMap.lookup e.fromNode with
  | none => .error (.corruptedData ("unknown node id: " ++ toString e.fromNode.toNat))
  | some fromNode =>
      match idMap.lookup e.toNode with
      | none => .error (.corruptedData ("unknown node id: " ++ toString e.toNode.toNat))
      | some toNode =>
          match t.createEdge g fromNode toNode e.label with
          | (_, .error err) => .error (.graph err)
          | (g, .ok id) => .ok (setEdgeProperties t g id e.properties)

/-- The graph of a snapshot. -/
def loadSnapshot (s : SSnapshot) : Except PersistenceError G :=
  let (g, idMap) := s.nodes.foldl (loadNode t) (t.new, ∅)
  s.edges.foldlM (loadEdge t idMap) g

end Load

/-! ## Reading a file -/

def readU32 : Reader PersistenceError UInt32 := Backup.readU32.mapError .ofBackup

def readU64 : Reader PersistenceError UInt64 := Backup.readU64.mapError .ofBackup

def readString : Reader PersistenceError String := Backup.readString.mapError .ofBackup

def readProperties : Reader PersistenceError Properties := Backup.readProperties.mapError .ofBackup

/-- At most the next `k` bytes. -/
def takeUpTo (k : ℕ) : Reader PersistenceError Bytes := fun bs => .ok (bs.take k, bs.drop k)

/-- The snapshot in the bytes that were read, of which the header announced `payloadLen`. -/
def decodePayload (payloadLen : ℕ) (encoded : Bytes) : Except PersistenceError SSnapshot :=
  if encoded.length ≠ payloadLen then
    .error (.corruptedData ("payload is " ++ toString encoded.length ++
      " byte(s) but the header says " ++ toString payloadLen))
  else (SnapshotCodec.decode encoded).mapError .ofFailure

/-- `read_snapshot`. -/
def readSnapshot : Reader PersistenceError SSnapshot := do
  let payloadLen ← readU64
  let encoded ← takeUpTo payloadLen.toNat
  (decodePayload payloadLen.toNat encoded : Except PersistenceError SSnapshot)

/-- The magic number and the version of a file. -/
def readHeader : Reader PersistenceError UInt32 := do
  let found ← Reader.exact .unexpectedEof 8
  if found ≠ magic then throw .invalidMagic
  readU32

/-- The loop of `read_label_list`. -/
def readLabels : ℕ → List String → Reader PersistenceError (List String)
  | 0, labels => pure labels
  | k + 1, labels => do
      let label ← readString
      readLabels k (labels ++ [label])

/-- `read_label_list`. -/
def readLabelList : Reader PersistenceError (List String) := do
  let count ← readU32
  readLabels count.toNat []

/-- The labels of a node in a file of an older version: a list from version 3 on, before that one
string with colons. -/
def readLegacyLabels (fileVersion : UInt32) : Reader PersistenceError (List String) :=
  if 3 ≤ fileVersion then readLabelList
  else do
    let labels ← readString
    pure (Backup.splitLabels labels)

/-- The loop over the nodes of a file of an older version. -/
def readLegacyNodes (fileVersion : UInt32) : ℕ → Backup.Restored → Reader PersistenceError Backup.Restored
  | 0, r => pure r
  | k + 1, r => do
      let oldId ← readU64
      let labels ← readLegacyLabels fileVersion
      let props ← readProperties
      readLegacyNodes fileVersion k (Backup.addNode r oldId labels props)

/-- The loop over the edges of a file of an older version, which is that of backups. -/
def readLegacyEdges (idMap : HashMap NodeId NodeId) (count : ℕ) (g : Graph) :
    Reader PersistenceError Graph :=
  (Backup.readEdges idMap count g).mapError .ofBackup

/-- `read_index_section`. -/
def readIndexSection : Reader PersistenceError (List SIndex) := do
  let count ← readU32
  let indexes ← (Backup.readIndexes count.toNat).mapError .ofBackup
  pure (indexes.map fun d => ⟨d.label, d.property, d.unique⟩)

/-- The rest of a file of an older version. -/
def loadLegacy (fileVersion : UInt32) : Reader PersistenceError (Graph × List SIndex) := do
  let nodeCount ← readU64
  let edgeCount ← readU64
  let (g, idMap) ← readLegacyNodes fileVersion nodeCount.toNat (.new, ∅)
  let g ← readLegacyEdges idMap edgeCount.toNat g
  if 2 ≤ fileVersion then do
    let indexes ← readIndexSection
    pure (g, indexes)
  else pure (g, [])

/-- `load_v4`. -/
def loadV4 : Reader PersistenceError (Graph × List SIndex) := do
  let snapshot ← readSnapshot
  let g ← (loadSnapshot Graph.target snapshot : Except PersistenceError Graph)
  pure (g, snapshot.indexes)

/-- `load_with_index`: the graph and the definitions of the index, in the order in which they are
created. -/
def loadWithIndex (file : Bytes) : Except PersistenceError (Graph × List SIndex) := do
  let (fileVersion, rest) ← readHeader file
  if fileVersion = version then
    let (result, _) ← loadV4 rest
    pure result
  else if fileVersion ≠ 3 ∧ fileVersion ≠ 2 ∧ fileVersion ≠ 1 then
    throw (.unsupportedVersion fileVersion)
  else
    let (result, _) ← loadLegacy fileVersion rest
    pure result

/-- `load`. -/
def load (file : Bytes) : Except PersistenceError Graph := do
  let (g, _) ← loadWithIndex file
  pure g

/-- `load_concurrent`, which reads the current version only. -/
def loadConcurrent (file : Bytes) : Except PersistenceError ConcurrentGraph := do
  let (fileVersion, rest) ← readHeader file
  if fileVersion ≠ version then throw (.unsupportedVersion fileVersion)
  let (snapshot, _) ← readSnapshot rest
  loadSnapshot ConcurrentGraph.target snapshot

end PersistentStorage

end Maharit
