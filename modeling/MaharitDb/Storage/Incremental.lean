import MaharitDb.Storage.BackupCopy
import MaharitDb.Storage.WalRecovery

/-!
# Incremental backups

An incremental backup (`maharit-storage/src/backup.rs`) holds the nodes and edges that the log
mentions since a full backup, as they are in the graph, and the ids that the log deletes.  Restoring
applies it to the restored full backup: nodes are stored under their ids, an edge that is not there is
created under the next free id, and the deleted ids go last.

The iteration orders of the hash sets of ids are parameters.
-/

namespace Maharit

open WalCodec

/-- The ids that the log mentions. -/
structure Changes where
  changedNodes : HashSet NodeId
  changedEdges : HashSet EdgeId
  deletedNodes : HashSet NodeId
  deletedEdges : HashSet EdgeId

namespace Changes

def none : Changes := ⟨∅, ∅, ∅, ∅⟩

/-- One round of the scan of the log. -/
def scanRecord (c : Changes) (r : LogRecord) : Changes :=
  match r.payload with
  | .createNode nodeId _ | .setNodeProperty nodeId _ _ =>
      { c with changedNodes := HashSet.add c.changedNodes nodeId }
  | .deleteNode nodeId =>
      { c with
        changedNodes := HashSet.remove c.changedNodes nodeId
        deletedNodes := HashSet.add c.deletedNodes nodeId }
  | .createEdge edgeId _ _ _ | .setEdgeProperty edgeId _ _ =>
      { c with changedEdges := HashSet.add c.changedEdges edgeId }
  | .deleteEdge edgeId =>
      { c with
        changedEdges := HashSet.remove c.changedEdges edgeId
        deletedEdges := HashSet.add c.deletedEdges edgeId }
  | .checkpoint _ => c

/-- The ids that some records mention. -/
def scan (records : List LogRecord) : Changes := records.foldl scanRecord none

end Changes

/-- The iteration orders of the four sets of ids. -/
structure ChangeOrders where
  changedNodes : IterOrder
  changedEdges : IterOrder
  deletedNodes : IterOrder
  deletedEdges : IterOrder

/-- What is known of an incremental backup. -/
structure IncrementalBackupMetadata where
  baseBackupId : String
  baseTimestamp : UInt64
  incrementalId : String
  timestamp : UInt64
  changedNodeIds : List NodeId
  changedEdgeIds : List EdgeId
  deletedNodeIds : List NodeId
  deletedEdgeIds : List EdgeId

namespace Backup

/-- `MHRTINCR`. -/
def incrMagic : Bytes := [77, 72, 82, 84, 73, 78, 67, 82]

def incrVersion : UInt32 := 1

/-! ## Writing -/

/-- The lists of ids: those changed that still exist, and those deleted. -/
def incrementOf (orders : ChangeOrders) (g : Graph) (c : Changes) (baseBackupId : String)
    (baseTimestamp timestamp : UInt64) : IncrementalBackupMetadata where
  baseBackupId := baseBackupId
  baseTimestamp := baseTimestamp
  incrementalId := "incr-" ++ toString timestamp.toNat
  timestamp := timestamp
  changedNodeIds := (orders.changedNodes.iter c.changedNodes).filter fun id => (g.getNode id).isSome
  changedEdgeIds := (orders.changedEdges.iter c.changedEdges).filter fun id => (g.getEdge id).isSome
  deletedNodeIds := orders.deletedNodes.iter c.deletedNodes
  deletedEdgeIds := orders.deletedEdges.iter c.deletedEdges

/-- The part of the file that may be compressed. -/
def incrementBytes (g : Graph) (m : IncrementalBackupMetadata) : Bytes :=
  u64Bytes (UInt64.ofNat m.changedNodeIds.length) ++
    m.changedNodeIds.flatMap (fun id => match g.getNode id with
      | some n => nodeBytes n
      | none => []) ++
    u64Bytes (UInt64.ofNat m.changedEdgeIds.length) ++
    m.changedEdgeIds.flatMap (fun id => match g.getEdge id with
      | some e => edgeBytes e
      | none => []) ++
    u64Bytes (UInt64.ofNat m.deletedNodeIds.length) ++ m.deletedNodeIds.flatMap u64Bytes ++
    u64Bytes (UInt64.ofNat m.deletedEdgeIds.length) ++ m.deletedEdgeIds.flatMap u64Bytes

/-- The header of an incremental backup. -/
def incrHeaderBytes (m : IncrementalBackupMetadata) (options : BackupOptions) : Bytes :=
  incrMagic ++ u32Bytes incrVersion ++ stringBytes m.baseBackupId ++ u64Bytes m.baseTimestamp ++
    stringBytes m.incrementalId ++ u64Bytes m.timestamp ++ [options.compression.toByte] ++
    stringBytes options.description

/-- An incremental backup of a graph since `baseTimestamp`, from the log. -/
def createIncremental (z : Compressors) (orders : ChangeOrders) (g : Graph) (baseBackupId : String)
    (baseTimestamp : UInt64) (wal : Bytes) (timestamp : UInt64) (options : BackupOptions) :
    IncrementalBackupMetadata × Bytes :=
  let changes := Changes.scan (readAllForIncremental wal baseTimestamp).1
  let m := incrementOf orders g changes baseBackupId baseTimestamp timestamp
  (m, incrHeaderBytes m options ++ writeCompressed z (incrementBytes g m) options.compression)

/-! ## Reading -/

/-- A node of the file: stored under its id, or its labels and properties replaced. -/
def applyChangedNode (g : Graph) (oldId : NodeId) (labels : List String) (props : Properties) : Graph :=
  if (g.getNode oldId).isNone then
    let (g, newId) := g.createNodeWithIdAndLabels oldId labels
    setNodeProperties g newId props
  else g.modifyNode oldId fun n => { n with labels := labels, properties := props }

/-- An edge of the file: created when it is missing, or its label and properties replaced. -/
def applyChangedEdge (g : Graph) (oldId : EdgeId) (fromNode toNode : NodeId) (label : String)
    (props : Properties) : Except BackupError Graph :=
  if (g.getEdge oldId).isNone && (g.getNode fromNode).isSome && (g.getNode toNode).isSome then
    match g.createEdge fromNode toNode label with
    | (_, .error e) => .error (.graph e)
    | (g, .ok newId) => .ok (setEdgeProperties g newId props)
  else .ok (g.modifyEdge oldId fun e => { e with label := label, properties := props })

/-- The loop over the changed nodes. -/
def readChangedNodes : ℕ → Graph → Reader BackupError Graph
  | 0, g => pure g
  | k + 1, g => do
      let oldId ← readU64
      let labels ← readString
      let props ← readProperties
      readChangedNodes k (applyChangedNode g oldId (splitLabels labels) props)

/-- The loop over the changed edges. -/
def readChangedEdges : ℕ → Graph → Reader BackupError Graph
  | 0, g => pure g
  | k + 1, g => do
      let oldId ← readU64
      let fromNode ← readU64
      let toNode ← readU64
      let label ← readString
      let props ← readProperties
      let g ← (applyChangedEdge g oldId fromNode toNode label props : Except BackupError Graph)
      readChangedEdges k g

/-- The loop over the deleted nodes.  The orders are those in which a deletion iterates over its edge
sets, by the number of ids that are still to come. -/
def readDeletedNodes (orders : ℕ → IterOrder × IterOrder) : ℕ → Graph → Reader BackupError Graph
  | 0, g => pure g
  | k + 1, g => do
      let id ← readU64
      readDeletedNodes orders k (g.deleteNode (orders k).1 (orders k).2 id).1

/-- The loop over the deleted edges. -/
def readDeletedEdges : ℕ → Graph → Reader BackupError Graph
  | 0, g => pure g
  | k + 1, g => do
      let id ← readU64
      readDeletedEdges k (g.deleteEdge id).1

/-- Apply the part of the file that may be compressed. -/
def readIncrement (orders : ℕ → IterOrder × IterOrder) (g : Graph) : Reader BackupError Graph := do
  let nodeCount ← readU64
  let g ← readChangedNodes nodeCount.toNat g
  let edgeCount ← readU64
  let g ← readChangedEdges edgeCount.toNat g
  let delNodeCount ← readU64
  let g ← readDeletedNodes orders delNodeCount.toNat g
  let delEdgeCount ← readU64
  readDeletedEdges delEdgeCount.toNat g

/-- The header of an incremental backup; it gives the flag whether the rest is compressed. -/
def readIncrHeader : Reader BackupError Bool := do
  let found ← readExact 8
  if found ≠ incrMagic then throw (.corruptedData "invalid incremental backup magic")
  let fileVersion ← readU32
  if fileVersion ≠ incrVersion then throw (.unsupportedVersion fileVersion)
  let _baseBackupId ← readString
  let _baseTimestamp ← readU64
  let _incrementalId ← readString
  let _timestamp ← readU64
  let flag ← readU8
  let _description ← readString
  pure (flag != 0)

/-- Restore a full backup and apply an incremental one.  Whatever the compression, a compressed file
is taken for a `gzip` one. -/
def restoreIncremental (z : Compressors) (orders : ℕ → IterOrder × IterOrder)
    (base increment : Bytes) : Except BackupError Graph := do
  let g ← restore z base
  let (compressed, rest) ← readIncrHeader increment
  let data ← if compressed then readCompressed z rest .gzip else .ok rest
  let (g, _) ← readIncrement orders g data
  pure g

/-! ## Reading back -/

open Reader

/-- A node of the file, as it is read back. -/
def copyChangedNode (g : Graph) (n : Node) : Graph :=
  applyChangedNode g n.id (splitLabels (joinLabels n.labels)) (copyProperties n.properties)

/-- An edge of the file, as it is read back. -/
def copyChangedEdge (g : Graph) (e : Edge) : Except BackupError Graph :=
  applyChangedEdge g e.id e.fromNode e.toNode e.label (copyProperties e.properties)

/-- Delete nodes one after the other. -/
def deleteNodes (orders : ℕ → IterOrder × IterOrder) : List NodeId → Graph → Graph
  | [], g => g
  | id :: ids, g =>
      deleteNodes orders ids (g.deleteNode (orders ids.length).1 (orders ids.length).2 id).1

/-- Delete edges one after the other. -/
def deleteEdges (ids : List EdgeId) (g : Graph) : Graph := ids.foldl (fun g id => (g.deleteEdge id).1) g

lemma reads_readChangedNodes (ns : List Node) (hshort : ∀ n ∈ ns, ShortNode n) (g : Graph) :
    Reads (readChangedNodes ns.length g) (ns.flatMap nodeBytes) (ns.foldl copyChangedNode g) := by
  induction ns generalizing g with
  | nil => exact Reads.pure g
  | cons n ns ih =>
    rw [List.forall_mem_cons] at hshort
    have hrest := ih hshort.2 (copyChangedNode g n)
    rw [List.flatMap_cons, nodeBytes, List.append_assoc, List.append_assoc]
    exact (reads_readU64 n.id).bind ((reads_readString hshort.1.labels).bind
      ((reads_readProperties hshort.1.properties).bind hrest))

lemma reads_readChangedEdges (es : List Edge) (hshort : ∀ e ∈ es, ShortEdge e) {g g' : Graph}
    (hcopy : es.foldlM copyChangedEdge g = .ok g') :
    Reads (readChangedEdges es.length g) (es.flatMap edgeBytes) g' := by
  induction es generalizing g with
  | nil =>
    obtain rfl : g = g' := Except.ok.inj hcopy
    exact Reads.pure g
  | cons e es ih =>
    rw [List.forall_mem_cons] at hshort
    rw [List.foldlM_cons] at hcopy
    obtain ⟨g₁, hfirst, hrest⟩ := Except.bind_eq_ok.mp hcopy
    have hlift : Reads (liftM (copyChangedEdge g e) : Reader BackupError Graph) [] g₁ := by
      rw [hfirst]
      exact Reads.pure g₁
    rw [List.flatMap_cons, edgeBytes, List.append_assoc, List.append_assoc, List.append_assoc,
      List.append_assoc]
    exact (reads_readU64 e.id).bind ((reads_readU64 e.fromNode).bind ((reads_readU64 e.toNode).bind
      ((reads_readString hshort.1.label).bind ((reads_readProperties hshort.1.properties).bind
        (hlift.bind (ih hshort.2 hrest))))))

lemma reads_readDeletedNodes (orders : ℕ → IterOrder × IterOrder) (ids : List NodeId) (g : Graph) :
    Reads (readDeletedNodes orders ids.length g) (ids.flatMap u64Bytes) (deleteNodes orders ids g) := by
  induction ids generalizing g with
  | nil => exact Reads.pure g
  | cons id ids ih =>
    rw [List.flatMap_cons]
    exact (reads_readU64 id).bind (ih _)

lemma reads_readDeletedEdges (ids : List EdgeId) (g : Graph) :
    Reads (readDeletedEdges ids.length g) (ids.flatMap u64Bytes) (deleteEdges ids g) := by
  induction ids generalizing g with
  | nil => exact Reads.pure g
  | cons id ids ih =>
    rw [List.flatMap_cons]
    exact (reads_readU64 id).bind (ih _)

lemma reads_readIncrHeader (m : IncrementalBackupMetadata) (options : BackupOptions)
    (hbase : ShortString m.baseBackupId) (hincr : ShortString m.incrementalId)
    (hdescription : ShortString options.description) :
    Reads readIncrHeader (incrHeaderBytes m options) (options.compression.toByte != 0) := by
  have hmagic : Reads (readExact 8) incrMagic incrMagic := reads_exact _ rfl
  simp only [incrHeaderBytes, List.append_assoc]
  refine hmagic.bind (reads_guard (not_not.mpr rfl) _ ?_)
  refine (reads_readU32 incrVersion).bind (reads_guard (not_not.mpr rfl) _ ?_)
  refine (reads_readString hbase).bind ((reads_readU64 m.baseTimestamp).bind
    ((reads_readString hincr).bind ((reads_readU64 m.timestamp).bind ((reads_readU8 _).bind ?_))))
  exact (reads_readString hdescription).bind_pure _

end Backup

end Maharit
