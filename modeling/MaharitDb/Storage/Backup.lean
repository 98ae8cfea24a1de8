import MaharitDb.Lib.ExceptList
import MaharitDb.Core.GraphContent
import MaharitDb.Storage.WalRecord

/-!
# Full backups

The backup file of a graph (`maharit-storage/src/backup.rs`): a header, then the nodes and edges in
the order of their slots, compressed or not.  Restoring creates them one after the other in an empty
graph, so that an element gets its rank among the live slots as its id; the map from the old to the
new node ids translates the endpoints of the edges.

The compression libraries are a parameter, `Compressors`, with what is relied on of them.
`restore_create` says that reading a backup builds the graph `rebuild`, and `Rebuilds` what that
graph is.
-/

namespace Maharit

open WalCodec

/-- The compression of a backup file. -/
inductive CompressionType where
  | none
  | gzip
  | zstd
  deriving DecidableEq, Repr

namespace CompressionType

def toByte : CompressionType → UInt8
  | none => 0
  | gzip => 1
  | zstd => 2

def ofByte (b : UInt8) : CompressionType :=
  if b = 1 then gzip else if b = 2 then zstd else none

theorem ofByte_toByte (c : CompressionType) : ofByte c.toByte = c := by
  cases c <;> rfl

end CompressionType

/-- The compression libraries.  A `zstd` frame starts with a magic number of its own, which a `gzip`
decoder does not accept. -/
structure Compressors where
  gzip : Bytes → Bytes
  gunzip : Bytes → Option Bytes
  zstd : Bytes → Bytes
  unzstd : Bytes → Option Bytes
  gunzip_gzip : ∀ data, gunzip (gzip data) = some data
  unzstd_zstd : ∀ data, unzstd (zstd data) = some data
  gunzip_zstd : ∀ data, gunzip (zstd data) = none

/-- Stand-ins for the compression libraries: the data stay as they are, behind the magic number of
the format. -/
def Compressors.framed : Compressors where
  gzip data := 0x1f :: 0x8b :: data
  gunzip
    | 0x1f :: 0x8b :: data => some data
    | _ => none
  zstd data := 0x28 :: 0xb5 :: 0x2f :: 0xfd :: data
  unzstd
    | 0x28 :: 0xb5 :: 0x2f :: 0xfd :: data => some data
    | _ => none
  gunzip_gzip _ := rfl
  unzstd_zstd _ := rfl
  gunzip_zstd _ := rfl

/-- The errors of backups.  `unexpectedEof` and `decoder` are the input errors a reader meets. -/
inductive BackupError where
  | unexpectedEof
  | decoder
  | invalidMagic
  | unsupportedVersion (version : UInt32)
  | corruptedData (message : String)
  | graph (error : GraphError)
  | wal (message : String)
  deriving DecidableEq, Repr

/-- The errors of the readers of words, strings and property values, which are those of the log up to
one text. -/
def BackupError.ofRead : WalError → BackupError
  | .unexpectedEof => .unexpectedEof
  | .corruptedLog message =>
      .corruptedData (if message = "invalid UTF-8" then "invalid UTF-8 string" else message)
  | .checksumMismatch => .wal "checksum mismatch"
  | .graph error => .graph error

/-- Options of a backup. -/
structure BackupOptions where
  compression : CompressionType
  description : String

/-- The header of a backup file. -/
structure BackupMetadata where
  version : UInt32
  timestamp : UInt64
  nodeCount : UInt64
  edgeCount : UInt64
  compression : CompressionType
  description : String

/-- An index definition, as the file stores it. -/
structure StoredIndex where
  label : String
  property : String
  unique : Bool

namespace Backup

/-- `MHRTBKUP`. -/
def magic : Bytes := [77, 72, 82, 84, 66, 75, 85, 80]

def version : UInt32 := 1

/-! ## Writing -/

/-- `write_string`. -/
def stringBytes (s : String) : Bytes := (stringChunks s).flatten

/-- `write_property_value`. -/
def propertyValueBytes (v : PropertyValue) : Bytes := (propertyChunks v).flatten

/-- `write_properties`: the number of properties, cut to 32 bits, and the properties. -/
def propertiesBytes (props : Properties) : Bytes :=
  u32Bytes (UInt32.ofNat props.entries.length) ++
    props.entries.flatMap fun p => stringBytes p.1 ++ propertyValueBytes p.2

/-- The labels of a node in one string, separated by colons. -/
def joinLabels (labels : List String) : String := String.intercalate ":" labels

/-- The labels in such a string. -/
def splitLabels (s : String) : List String :=
  if s.isEmpty then [] else (s.toList.splitOn ':').map String.ofList

def nodeBytes (n : Node) : Bytes :=
  u64Bytes n.id ++ stringBytes (joinLabels n.labels) ++ propertiesBytes n.properties

def edgeBytes (e : Edge) : Bytes :=
  u64Bytes e.id ++ u64Bytes e.fromNode ++ u64Bytes e.toNode ++ stringBytes e.label ++
    propertiesBytes e.properties

def indexBytes (d : StoredIndex) : Bytes :=
  stringBytes d.label ++ stringBytes d.property ++ [if d.unique then 1 else 0]

/-- `serialize_graph`. -/
def serializeGraph (g : Graph) (indexes : List StoredIndex) : Bytes :=
  u64Bytes (UInt64.ofNat g.nodeCount) ++ u64Bytes (UInt64.ofNat g.edgeCount) ++
    (g.nodes.filterMap id).flatMap nodeBytes ++ (g.edges.filterMap id).flatMap edgeBytes ++
    u32Bytes (UInt32.ofNat indexes.length) ++ indexes.flatMap indexBytes

/-- `write_compressed`. -/
def writeCompressed (z : Compressors) (data : Bytes) : CompressionType → Bytes
  | .none => data
  | .gzip => z.gzip data
  | .zstd => z.zstd data

def headerBytes (m : BackupMetadata) : Bytes :=
  magic ++ u32Bytes m.version ++ u64Bytes m.timestamp ++ u64Bytes m.nodeCount ++
    u64Bytes m.edgeCount ++ [m.compression.toByte] ++ stringBytes m.description

/-- A backup of a graph, at the given time: the metadata and the file. -/
def create (z : Compressors) (g : Graph) (timestamp : UInt64) (options : BackupOptions) :
    BackupMetadata × Bytes :=
  let metadata : BackupMetadata :=
    ⟨version, timestamp, UInt64.ofNat g.nodeCount, UInt64.ofNat g.edgeCount, options.compression,
      options.description⟩
  (metadata, headerBytes metadata ++ writeCompressed z (serializeGraph g []) options.compression)

/-! ## Reading -/

def readExact (k : ℕ) : Reader BackupError Bytes := Reader.exact .unexpectedEof k

def readU64 : Reader BackupError UInt64 := WalCodec.readU64.mapError .ofRead

def readU32 : Reader BackupError UInt32 := WalCodec.readU32.mapError .ofRead

def readU8 : Reader BackupError UInt8 := WalCodec.readU8.mapError .ofRead

def readString : Reader BackupError String := WalCodec.readString.mapError .ofRead

def readPropertyValue : Reader BackupError PropertyValue := WalCodec.readProperty.mapError .ofRead

/-- The loop of `read_properties`. -/
def readEntries : ℕ → Properties → Reader BackupError Properties
  | 0, props => pure props
  | k + 1, props => do
      let key ← readString
      let value ← readPropertyValue
      readEntries k (props.insert key value)

/-- `read_properties`. -/
def readProperties : Reader BackupError Properties := do
  let count ← readU32
  readEntries count.toNat ∅

/-- The graph under construction, and the map from the old to the new node ids. -/
abbrev Restored := Graph × HashMap NodeId NodeId

/-- Assign properties to a node. -/
def setNodeProperties (g : Graph) (id : NodeId) (props : Properties) : Graph :=
  props.entries.foldl (fun g p => g.setNodeProperty id p.1 p.2) g

/-- Assign properties to an edge. -/
def setEdgeProperties (g : Graph) (id : EdgeId) (props : Properties) : Graph :=
  props.entries.foldl (fun g p => g.setEdgeProperty id p.1 p.2) g

/-- Create a node that was read. -/
def addNode (r : Restored) (oldId : NodeId) (labels : List String) (props : Properties) : Restored :=
  let (g, newId) := r.1.createNodeWithLabels labels
  (setNodeProperties g newId props, r.2.insert oldId newId)

/-- Create an edge that was read. -/
def addEdge (idMap : HashMap NodeId NodeId) (g : Graph) (oldFrom oldTo : NodeId) (label : String)
    (props : Properties) : Except BackupError Graph :=
  match idMap.lookup oldFrom with
  | none => .error (.corruptedData ("unknown node id: " ++ toString oldFrom.toNat))
  | some fromNode =>
      match idMap.lookup oldTo with
      | none => .error (.corruptedData ("unknown node id: " ++ toString oldTo.toNat))
      | some toNode =>
          match g.createEdge fromNode toNode label with
          | (_, .error e) => .error (.graph e)
          | (g, .ok id) => .ok (setEdgeProperties g id props)

/-- The loop over the nodes. -/
def readNodes : ℕ → Restored → Reader BackupError Restored
  | 0, r => pure r
  | k + 1, r => do
      let oldId ← readU64
      let labels ← readString
      let props ← readProperties
      readNodes k (addNode r oldId (splitLabels labels) props)

/-- The loop over the edges. -/
def readEdges (idMap : HashMap NodeId NodeId) : ℕ → Graph → Reader BackupError Graph
  | 0, g => pure g
  | k + 1, g => do
      let _oldId ← readU64
      let oldFrom ← readU64
      let oldTo ← readU64
      let label ← readString
      let props ← readProperties
      let g ← (addEdge idMap g oldFrom oldTo label props : Except BackupError Graph)
      readEdges idMap k g

/-- The loop over the index definitions. -/
def readIndexes : ℕ → Reader BackupError (List StoredIndex)
  | 0 => pure []
  | k + 1 => do
      let label ← readString
      let property ← readString
      let unique ← readU8
      let rest ← readIndexes k
      pure (⟨label, property, unique != 0⟩ :: rest)

/-- The index definitions; an old file ends before them. -/
def readIndexSection : Reader BackupError (List StoredIndex) := fun bs =>
  match readU32 bs with
  | .error .unexpectedEof => .ok ([], bs)
  | .error e => .error e
  | .ok (count, rest) => readIndexes count.toNat rest

/-- `deserialize_graph_internal`. -/
def deserializeGraphInternal : Reader BackupError (Graph × List StoredIndex) := do
  let nodeCount ← readU64
  let edgeCount ← readU64
  let (g, idMap) ← readNodes nodeCount.toNat (.new, ∅)
  let g ← readEdges idMap edgeCount.toNat g
  let indexes ← readIndexSection
  pure (g, indexes)

/-- `read_compressed`. -/
def readCompressed (z : Compressors) (data : Bytes) : CompressionType → Except BackupError Bytes
  | .none => .ok data
  | .gzip => match z.gunzip data with
      | some data => .ok data
      | none => .error .decoder
  | .zstd => match z.unzstd data with
      | some data => .ok data
      | none => .error .decoder

/-- The header of a file. -/
def readHeader : Reader BackupError BackupMetadata := do
  let found ← readExact 8
  if found ≠ magic then throw .invalidMagic
  let fileVersion ← readU32
  if fileVersion ≠ version then throw (.unsupportedVersion fileVersion)
  let timestamp ← readU64
  let nodeCount ← readU64
  let edgeCount ← readU64
  let compression ← readU8
  let description ← readString
  pure ⟨fileVersion, timestamp, nodeCount, edgeCount, .ofByte compression, description⟩

/-- Restore a graph from a backup file. -/
def restore (z : Compressors) (file : Bytes) : Except BackupError Graph := do
  let (metadata, rest) ← readHeader file
  let data ← readCompressed z rest metadata.compression
  let (result, _) ← deserializeGraphInternal data
  pure result.1

/-! ## Reading back -/

open Reader

lemma reads_readU64 (n : UInt64) : Reads readU64 (u64Bytes n) n :=
  (WalCodec.frames_readU64 n).reads.mapError _

lemma reads_readU32 (n : UInt32) : Reads readU32 (u32Bytes n) n :=
  (WalCodec.frames_readU32 n).reads.mapError _

lemma reads_readU8 (b : UInt8) : Reads readU8 [b] b := (WalCodec.frames_readU8 b).reads.mapError _

lemma reads_readString {s : String} (hs : ShortString s) : Reads readString (stringBytes s) s :=
  (WalCodec.frames_readString hs).reads.mapError _

lemma reads_readPropertyValue {v : PropertyValue} (hv : ShortValue v) :
    Reads readPropertyValue (propertyValueBytes v) v :=
  (WalCodec.frames_readProperty hv).reads.mapError _

/-- A count below `2 ^ 32` is read back. -/
lemma toNat_ofNat32 {k : ℕ} (hk : k < 2 ^ 32) : (UInt32.ofNat k).toNat = k := by
  rw [UInt32.toNat_ofNat']
  exact Nat.mod_eq_of_lt hk

/-- A count below `2 ^ 64` is read back. -/
lemma toNat_ofNat64 {k : ℕ} (hk : k < 2 ^ 64) : (UInt64.ofNat k).toNat = k := by
  rw [UInt64.toNat_ofNat']
  exact Nat.mod_eq_of_lt hk

/-- The properties fit into the 32-bit lengths of the file. -/
structure ShortProperties (props : Properties) : Prop where
  count : props.entries.length < 2 ^ 32
  entries : ∀ p ∈ props.entries, ShortString p.1 ∧ ShortValue p.2

/-- The properties, entered one after the other into an empty map. -/
def copyProperties (props : Properties) : Properties :=
  props.entries.foldl (fun m p => m.insert p.1 p.2) ∅

/-- The copy has the same values. -/
@[simp] lemma lookup_copyProperties (props : Properties) (k : String) :
    (copyProperties props).lookup k = props.lookup k := by
  refine (HashMap.lookup_foldl_insert props.entries props.nodupKeys ∅ k).trans ?_
  simp only [AList.lookup_empty, Option.or_none]
  rfl

lemma reads_readEntries (entries : List (Sigma fun _ : String => PropertyValue))
    (hshort : ∀ p ∈ entries, ShortString p.1 ∧ ShortValue p.2) (props : Properties) :
    Reads (readEntries entries.length props)
      (entries.flatMap fun p => stringBytes p.1 ++ propertyValueBytes p.2)
      (entries.foldl (fun m p => m.insert p.1 p.2) props) := by
  induction entries generalizing props with
  | nil => exact Reads.pure props
  | cons p entries ih =>
    rw [List.forall_mem_cons] at hshort
    have hrest := ih hshort.2 (props.insert p.1 p.2)
    rw [List.flatMap_cons, List.append_assoc]
    exact (reads_readString hshort.1.1).bind ((reads_readPropertyValue hshort.1.2).bind hrest)

lemma reads_readProperties {props : Properties} (h : ShortProperties props) :
    Reads readProperties (propertiesBytes props) (copyProperties props) := by
  refine (reads_readU32 _).bind ?_
  rw [toNat_ofNat32 h.count]
  exact reads_readEntries props.entries h.entries ∅

/-- The strings of a node fit into the lengths of the file. -/
structure ShortNode (n : Node) : Prop where
  labels : ShortString (joinLabels n.labels)
  properties : ShortProperties n.properties

/-- The strings of an edge fit into the lengths of the file. -/
structure ShortEdge (e : Edge) : Prop where
  label : ShortString e.label
  properties : ShortProperties e.properties

instance (props : Properties) : Decidable (ShortProperties props) :=
  decidable_of_iff (props.entries.length < 2 ^ 32 ∧
    ∀ p ∈ props.entries, ShortString p.1 ∧ ShortValue p.2) ⟨fun h => ⟨h.1, h.2⟩, fun h => ⟨h.1, h.2⟩⟩

instance (n : Node) : Decidable (ShortNode n) :=
  decidable_of_iff (ShortString (joinLabels n.labels) ∧ ShortProperties n.properties)
    ⟨fun h => ⟨h.1, h.2⟩, fun h => ⟨h.1, h.2⟩⟩

instance (e : Edge) : Decidable (ShortEdge e) :=
  decidable_of_iff (ShortString e.label ∧ ShortProperties e.properties)
    ⟨fun h => ⟨h.1, h.2⟩, fun h => ⟨h.1, h.2⟩⟩

/-- A node as it is created again from the file. -/
def copyNode (r : Restored) (n : Node) : Restored :=
  addNode r n.id (splitLabels (joinLabels n.labels)) (copyProperties n.properties)

/-- An edge as it is created again from the file. -/
def copyEdge (idMap : HashMap NodeId NodeId) (g : Graph) (e : Edge) : Except BackupError Graph :=
  addEdge idMap g e.fromNode e.toNode e.label (copyProperties e.properties)

lemma reads_readNodes (ns : List Node) (hshort : ∀ n ∈ ns, ShortNode n) (r : Restored) :
    Reads (readNodes ns.length r) (ns.flatMap nodeBytes) (ns.foldl copyNode r) := by
  induction ns generalizing r with
  | nil => exact Reads.pure r
  | cons n ns ih =>
    rw [List.forall_mem_cons] at hshort
    have hrest := ih hshort.2 (copyNode r n)
    rw [List.flatMap_cons, nodeBytes, List.append_assoc, List.append_assoc]
    exact (reads_readU64 n.id).bind ((reads_readString hshort.1.labels).bind
      ((reads_readProperties hshort.1.properties).bind hrest))

lemma reads_readEdges (idMap : HashMap NodeId NodeId) (es : List Edge)
    (hshort : ∀ e ∈ es, ShortEdge e) {g g' : Graph}
    (hcopy : es.foldlM (copyEdge idMap) g = .ok g') :
    Reads (readEdges idMap es.length g) (es.flatMap edgeBytes) g' := by
  induction es generalizing g with
  | nil =>
    obtain rfl : g = g' := Except.ok.inj hcopy
    exact Reads.pure g
  | cons e es ih =>
    rw [List.forall_mem_cons] at hshort
    rw [List.foldlM_cons] at hcopy
    obtain ⟨g₁, hfirst, hrest⟩ := Except.bind_eq_ok.mp hcopy
    have hlift : Reads (liftM (copyEdge idMap g e) : Reader BackupError Graph) [] g₁ := by
      rw [hfirst]
      exact Reads.pure g₁
    rw [List.flatMap_cons, edgeBytes, List.append_assoc, List.append_assoc, List.append_assoc,
      List.append_assoc]
    exact (reads_readU64 e.id).bind ((reads_readU64 e.fromNode).bind ((reads_readU64 e.toNode).bind
      ((reads_readString hshort.1.label).bind ((reads_readProperties hshort.1.properties).bind
        (hlift.bind (ih hshort.2 hrest))))))

/-- The graph that restoring a backup builds. -/
def rebuild (g : Graph) : Except BackupError Graph :=
  let r := (g.nodes.filterMap id).foldl copyNode (.new, ∅)
  (g.edges.filterMap id).foldlM (copyEdge r.2) r.1

/-- The strings and the numbers of properties of a graph fit into the lengths of the file. -/
structure Storable (g : Graph) : Prop where
  nodes : ∀ id n, g.getNode id = some n → ShortNode n
  edges : ∀ id e, g.getEdge id = some e → ShortEdge e

/-- What is checked of every occupied slot. -/
lemma storable_of_slots {g : Graph} (hnodes : ∀ n ∈ g.nodes.filterMap id, ShortNode n)
    (hedges : ∀ e ∈ g.edges.filterMap id, ShortEdge e) : Storable g :=
  ⟨fun _ n hn => hnodes n (Slots.mem_filterMap_id.mpr ⟨_, hn⟩),
    fun _ e he => hedges e (Slots.mem_filterMap_id.mpr ⟨_, he⟩)⟩

lemma Storable.node_of_mem {g : Graph} (h : Storable g) (hg : g.Inv) {n : Node}
    (hn : n ∈ g.nodes.filterMap id) : ShortNode n := by
  have hmem := (Graph.mem_slots hg.fits.nodes_lt hg.node_id n).mp hn
  exact h.nodes n.id n hmem

lemma Storable.edge_of_mem {g : Graph} (h : Storable g) (hg : g.Inv) {e : Edge}
    (he : e ∈ g.edges.filterMap id) : ShortEdge e := by
  have hmem := (Graph.mem_slots hg.fits.edges_lt hg.valid.edge_id e).mp he
  exact h.edges e.id e hmem

/-- A check that passes. -/
lemma reads_guard {α : Type} {c : Prop} [Decidable c] (hc : ¬ c) (e : BackupError)
    {r : Reader BackupError α} {bytes : Bytes} {x : α} (h : Reads r bytes x) :
    Reads (do
      if c then throw e
      r) bytes x := by
  rw [if_neg hc]
  exact h

lemma reads_readHeader (timestamp nodeCount edgeCount : UInt64) (compression : CompressionType)
    {description : String} (hshort : ShortString description) :
    Reads readHeader
      (headerBytes ⟨version, timestamp, nodeCount, edgeCount, compression, description⟩)
      ⟨version, timestamp, nodeCount, edgeCount, compression, description⟩ := by
  have hmagic : Reads (readExact 8) magic magic := reads_exact _ rfl
  simp only [headerBytes, List.append_assoc]
  refine hmagic.bind (reads_guard (not_not.mpr rfl) _ ?_)
  refine (reads_readU32 version).bind (reads_guard (not_not.mpr rfl) _ ?_)
  refine (reads_readU64 timestamp).bind ((reads_readU64 nodeCount).bind
    ((reads_readU64 edgeCount).bind ?_))
  refine (reads_readU8 _).bind ?_
  rw [CompressionType.ofByte_toByte]
  exact (reads_readString hshort).bind_pure _
/-- What `create` writes for the graph is read back. -/
lemma reads_deserializeGraphInternal {g f : Graph} (hg : g.Inv) (hstore : Storable g)
    (hf : rebuild g = .ok f) :
    Reads deserializeGraphInternal (serializeGraph g []) (f, []) := by
  have hnodes := reads_readNodes (g.nodes.filterMap id) (fun n hn => hstore.node_of_mem hg hn)
    (.new, ∅)
  have hedges := reads_readEdges _ (g.edges.filterMap id) (fun e he => hstore.edge_of_mem hg he) hf
  have hindexes : Reads readIndexSection (u32Bytes (UInt32.ofNat 0)) [] := by
    intro rest
    rw [readIndexSection, reads_readU32]
    rfl
  have hnodeCount : (UInt64.ofNat g.nodeCount).toNat = (g.nodes.filterMap id).length := by
    rw [hg.nodeCount, ← Slots.length_filterMap_id]
    exact toNat_ofNat64 ((List.length_filterMap_le _ _).trans_lt hg.fits.nodes_lt)
  have hedgeCount : (UInt64.ofNat g.edgeCount).toNat = (g.edges.filterMap id).length := by
    rw [hg.edgeCount, ← Slots.length_filterMap_id]
    exact toNat_ofNat64 ((List.length_filterMap_le _ _).trans_lt hg.fits.edges_lt)
  simp only [serializeGraph, List.append_assoc, List.flatMap_nil, List.append_nil, List.length_nil]
  refine (reads_readU64 _).bind ((reads_readU64 _).bind ?_)
  rw [hnodeCount, hedgeCount]
  exact hnodes.bind (hedges.bind (hindexes.bind_pure fun indexes => (f, indexes)))

lemma readCompressed_writeCompressed (z : Compressors) (data : Bytes) (c : CompressionType) :
    readCompressed z (writeCompressed z data c) c = .ok data := by
  cases c with
  | none => rfl
  | gzip => simp only [readCompressed, writeCompressed, z.gunzip_gzip]
  | zstd => simp only [readCompressed, writeCompressed, z.unzstd_zstd]

/-- Restoring a backup gives the rebuilt graph. -/
theorem restore_create (z : Compressors) {g f : Graph} (hg : g.Inv) (hstore : Storable g)
    (hf : rebuild g = .ok f) (timestamp : UInt64) {options : BackupOptions}
    (hoptions : ShortString options.description) :
    restore z (create z g timestamp options).2 = .ok f := by
  have hheader := reads_readHeader timestamp (UInt64.ofNat g.nodeCount) (UInt64.ofNat g.edgeCount)
    options.compression hoptions (writeCompressed z (serializeGraph g []) options.compression)
  have hdata := reads_deserializeGraphInternal hg hstore hf []
  rw [List.append_nil] at hdata
  simp only [restore, create, hheader, readCompressed_writeCompressed, hdata, Bind.bind, Except.bind,
    Pure.pure, Except.pure]

end Backup

end Maharit
