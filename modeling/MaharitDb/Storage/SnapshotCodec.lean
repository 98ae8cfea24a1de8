import MaharitDb.Lib.ByteDecoder
import MaharitDb.Storage.WalRecord

/-!
# The snapshot payload

Encoder and decoder of the snapshot payload (`maharit-storage/src/snapshot_codec.rs`): fixed-width
little-endian numbers, every list, map and string preceded by its length in eight bytes, and property
values by a tag in four.

The decoder builds a property map from a list of entries, in which a key may occur twice.
`SnapshotWire` is the snapshot with such lists in the place of the maps: the payloads that are
accepted are exactly the encodings of wires.
-/

namespace Maharit

open WalCodec ByteDecoder

/-- A node as stored in the snapshot. -/
structure SNode where
  id : UInt64
  labels : List String
  properties : Properties

/-- A relationship as stored in the snapshot. -/
structure SEdge where
  id : UInt64
  label : String
  fromNode : UInt64
  toNode : UInt64
  properties : Properties

/-- A property index definition as stored in the snapshot. -/
structure SIndex where
  label : String
  property : String
  unique : Bool
  deriving DecidableEq, Repr

/-- The whole payload. -/
structure SSnapshot where
  nodes : List SNode
  edges : List SEdge
  indexes : List SIndex

namespace SnapshotCodec

/-- An entry of a property map. -/
abbrev PropertyEntry := Sigma fun _ : String => PropertyValue

/-! ## Encoding -/

def putU64 (v : UInt64) : Bytes := u64Bytes v

def putLen (len : ℕ) : Bytes := putU64 (UInt64.ofNat len)

def putStr (s : String) : Bytes := putLen (utf8 s).length ++ utf8 s

def putBool (b : Bool) : Bytes := [if b then 1 else 0]

def putValue : PropertyValue → Bytes
  | .null => u32Bytes 0
  | .bool b => u32Bytes 1 ++ putBool b
  | .int n => u32Bytes 2 ++ u64Bytes n.toUInt64
  | .float x => u32Bytes 3 ++ u64Bytes x.bits
  | .string s => u32Bytes 4 ++ putStr s
  | .date d => u32Bytes 5 ++ u32Bytes d.toUInt32
  | .dateTime ms => u32Bytes 6 ++ u64Bytes ms.toUInt64
  | .duration months days millis =>
      u32Bytes 7 ++ (u32Bytes months.toUInt32 ++ (u32Bytes days.toUInt32 ++ u64Bytes millis.toUInt64))

def putEntry (e : PropertyEntry) : Bytes := putStr e.1 ++ putValue e.2

/-- `put_props`, in the iteration order of the map. -/
def putProps (props : Properties) : Bytes :=
  putLen props.entries.length ++ props.entries.flatMap putEntry

def putNode (n : SNode) : Bytes :=
  putU64 n.id ++ ((putLen n.labels.length ++ n.labels.flatMap putStr) ++ putProps n.properties)

def putEdge (e : SEdge) : Bytes :=
  putU64 e.id ++ (putStr e.label ++ (putU64 e.fromNode ++ (putU64 e.toNode ++ putProps e.properties)))

def putIndex (i : SIndex) : Bytes := putStr i.label ++ (putStr i.property ++ putBool i.unique)

/-- `encode`. -/
def encode (s : SSnapshot) : Bytes :=
  (putLen s.nodes.length ++ s.nodes.flatMap putNode) ++
    ((putLen s.edges.length ++ s.edges.flatMap putEdge) ++
      (putLen s.indexes.length ++ s.indexes.flatMap putIndex))

/-! ## Decoding -/

/-- `take`: the next `n` bytes. -/
def take (n : ℕ) : ByteDecoder Bytes := fun bytes c =>
  if c.pos + n ≤ bytes.length then advance n bytes c
  else failWith ("unexpected end of data at byte " ++ toString c.pos) bytes c

def u32 : ByteDecoder UInt32 := do
  let bs ← take 4
  pure (UInt32.ofNat bs.toNat)

def u64 : ByteDecoder UInt64 := do
  let bs ← take 8
  pure (UInt64.ofNat bs.toNat)

def i32 : ByteDecoder Int32 := do
  let n ← u32
  pure n.toInt32

def i64 : ByteDecoder Int64 := do
  let n ← u64
  pure n.toInt64

def bool : ByteDecoder Bool := do
  let bs ← take 1
  let at' ← position
  if bs = [0] then pure false
  else if bs = [1] then pure true
  else failWith ("invalid bool byte " ++ toString ((bs.headD 0).toNat) ++ " at " ++ toString (at' - 1))

/-- `count`: an element count whose elements take at least `minSize` bytes each. -/
def count (minSize : ℕ) (what : String) : ByteDecoder ℕ := do
  let at' ← position
  let n ← u64
  let remaining ← ByteDecoder.remaining
  if remaining < min (n.toNat * minSize) (2 ^ 64 - 1) then
    failWith (what ++ " at byte " ++ toString at' ++ " claims " ++ toString n.toNat ++
      " element(s) but only " ++ toString remaining ++ " byte(s) remain")
  else pure n.toNat

/-- `string`.  The copy of the bytes is logged where they are taken. -/
def string : ByteDecoder String := do
  let at' ← position
  let len ← count 1 "string"
  allocate len 1
  let raw ← advance len
  match String.fromUTF8? ⟨raw.toArray⟩ with
  | some s => pure s
  | none => failWith ("invalid UTF-8 in string at byte " ++ toString at')

/-- The fields of a value with the given tag, which stood at byte `at'`. -/
def valueFields (at' : ℕ) (tag : UInt32) : ByteDecoder PropertyValue :=
  if tag = 0 then pure .null
  else if tag = 1 then do
    let b ← bool
    pure (.bool b)
  else if tag = 2 then do
    let n ← i64
    pure (.int n)
  else if tag = 3 then do
    let n ← u64
    pure (.float ⟨n⟩)
  else if tag = 4 then do
    let s ← string
    pure (.string s)
  else if tag = 5 then do
    let d ← i32
    pure (.date d)
  else if tag = 6 then do
    let ms ← i64
    pure (.dateTime ms)
  else if tag = 7 then do
    let months ← i32
    let days ← i32
    let millis ← i64
    pure (.duration months days millis)
  else failWith ("unknown property type " ++ toString tag.toNat ++ " at byte " ++ toString at')

/-- `value`. -/
def value : ByteDecoder PropertyValue := do
  let at' ← position
  let tag ← u32
  valueFields at' tag

/-- One round of the loop of `props`. -/
def propsStep (map : Properties) : ByteDecoder Properties := do
  let key ← string
  let v ← value
  pure (map.insert key v)

/-- `props`. -/
def props : ByteDecoder Properties := do
  let n ← count (8 + 4) "property map"
  allocate n (8 + 4)
  times propsStep n ∅

/-- A list of at least `minSize` bytes an element, pushed one after the other. -/
def list {α : Type} (minSize : ℕ) (what : String) (element : ByteDecoder α) :
    ByteDecoder (List α) := do
  let n ← count minSize what
  allocate n minSize
  times (fun acc => do
    let x ← element
    pure (acc ++ [x])) n []

def node : ByteDecoder SNode := do
  let id ← u64
  let labels ← list 8 "label list" string
  let properties ← props
  pure ⟨id, labels, properties⟩

def edge : ByteDecoder SEdge := do
  let id ← u64
  let label ← string
  let fromNode ← u64
  let toNode ← u64
  let properties ← props
  pure ⟨id, label, fromNode, toNode, properties⟩

def index : ByteDecoder SIndex := do
  let label ← string
  let property ← string
  let unique ← bool
  pure ⟨label, property, unique⟩

/-- The three lists of a payload. -/
def snapshot : ByteDecoder SSnapshot := do
  let nodes ← list (8 + 8 + 8) "node list" node
  let edges ← list (8 + 8 + 8 + 8 + 8) "edge list" edge
  let indexes ← list (8 + 8 + 1) "index list" index
  pure ⟨nodes, edges, indexes⟩

/-- `decode`, with the cursor at its end. -/
def decodeRun (bytes : Bytes) : Except Failure SSnapshot × Cursor :=
  match snapshot bytes Cursor.start with
  | (.error e, c) => (.error e, c)
  | (.ok s, c) =>
      if c.pos ≠ bytes.length then
        (.error (.message (toString (bytes.length - c.pos) ++
          " trailing byte(s) after the snapshot")), c)
      else (.ok s, c)

/-- `decode`. -/
def decode (bytes : Bytes) : Except Failure SSnapshot := (decodeRun bytes).1

/-! ## Wires -/

/-- A property map with the given entries; of two with the same key the later one counts. -/
def collectProps (entries : List PropertyEntry) : Properties :=
  entries.foldl (fun map e => map.insert e.1 e.2) ∅

/-- A node as it stands in the payload. -/
structure NodeWire where
  id : UInt64
  labels : List String
  entries : List PropertyEntry

/-- An edge as it stands in the payload. -/
structure EdgeWire where
  id : UInt64
  label : String
  fromNode : UInt64
  toNode : UInt64
  entries : List PropertyEntry

/-- A payload. -/
structure SnapshotWire where
  nodes : List NodeWire
  edges : List EdgeWire
  indexes : List SIndex

def putEntries (entries : List PropertyEntry) : Bytes :=
  putLen entries.length ++ entries.flatMap putEntry

namespace NodeWire

def bytes (n : NodeWire) : Bytes :=
  putU64 n.id ++ ((putLen n.labels.length ++ n.labels.flatMap putStr) ++ putEntries n.entries)

/-- The node that is read. -/
def node (n : NodeWire) : SNode := ⟨n.id, n.labels, collectProps n.entries⟩

end NodeWire

namespace EdgeWire

def bytes (e : EdgeWire) : Bytes :=
  putU64 e.id ++ (putStr e.label ++ (putU64 e.fromNode ++ (putU64 e.toNode ++ putEntries e.entries)))

/-- The edge that is read. -/
def edge (e : EdgeWire) : SEdge := ⟨e.id, e.label, e.fromNode, e.toNode, collectProps e.entries⟩

end EdgeWire

namespace SnapshotWire

def bytes (w : SnapshotWire) : Bytes :=
  (putLen w.nodes.length ++ w.nodes.flatMap NodeWire.bytes) ++
    ((putLen w.edges.length ++ w.edges.flatMap EdgeWire.bytes) ++
      (putLen w.indexes.length ++ w.indexes.flatMap putIndex))

/-- The snapshot that is read. -/
def snapshot (w : SnapshotWire) : SSnapshot :=
  ⟨w.nodes.map NodeWire.node, w.edges.map EdgeWire.edge, w.indexes⟩

/-- No property map of the payload has a key twice. -/
def NoDuplicates (w : SnapshotWire) : Prop :=
  (∀ n ∈ w.nodes, n.entries.NodupKeys) ∧ ∀ e ∈ w.edges, e.entries.NodupKeys

end SnapshotWire

end SnapshotCodec

/-! ## Snapshots up to the order of their maps -/

/-- Two nodes of snapshots are equal as values: their maps have the same entries, in any iteration
order. -/
structure SNode.Same (a b : SNode) : Prop where
  id : a.id = b.id
  labels : a.labels = b.labels
  properties : ∀ key, a.properties.lookup key = b.properties.lookup key

/-- Two edges of snapshots are equal as values. -/
structure SEdge.Same (a b : SEdge) : Prop where
  id : a.id = b.id
  label : a.label = b.label
  fromNode : a.fromNode = b.fromNode
  toNode : a.toNode = b.toNode
  properties : ∀ key, a.properties.lookup key = b.properties.lookup key

/-- Two snapshots are equal as values. -/
structure SSnapshot.Same (a b : SSnapshot) : Prop where
  nodes : List.Forall₂ SNode.Same a.nodes b.nodes
  edges : List.Forall₂ SEdge.Same a.edges b.edges
  indexes : a.indexes = b.indexes

end Maharit
