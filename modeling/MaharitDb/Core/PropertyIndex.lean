import MaharitDb.Core.FloatOrder
import MaharitDb.Core.GraphBackend

/-!
# The property index

The index on node properties (`maharit-core/src/property_index.rs`).  Which indexes exist is recorded
by label and property; the entries are kept by property and value alone.
-/

namespace Maharit

/-- A property with one of its values. -/
abbrev PropertyKey := String × PropertyValue

/-- An index on a property of the nodes with a label. -/
structure IndexDefinition where
  label : String
  property : String
  deriving DecidableEq, Repr

/-- The text an index is registered under. -/
def IndexDefinition.key (d : IndexDefinition) : String := d.label ++ ":" ++ d.property

/-- The property index. -/
structure PropertyIndex where
  definitions : HashMap String IndexDefinition
  /-- The nodes with a value of a property. -/
  exactIndex : HashMap PropertyKey (HashSet NodeId)
  /-- The entries of a node. -/
  nodeToKeys : HashMap NodeId (HashSet PropertyKey)
  intRangeIndex : HashMap String (HashMap Int64 (HashSet NodeId))
  floatRangeIndex : HashMap String (List (F64 × NodeId))

namespace PropertyIndex

/-- No index. -/
def new : PropertyIndex := ⟨∅, ∅, ∅, ∅, ∅⟩

/-! ## Index management -/

def createIndex (ix : PropertyIndex) (d : IndexDefinition) : PropertyIndex :=
  { ix with definitions := ix.definitions.insert d.key d }

/-- Drop an index; its entries stay. -/
def dropIndex (ix : PropertyIndex) (label property : String) : PropertyIndex :=
  { ix with definitions := ix.definitions.erase (IndexDefinition.key ⟨label, property⟩) }

def hasIndex (ix : PropertyIndex) (label property : String) : Bool :=
  decide (IndexDefinition.key ⟨label, property⟩ ∈ ix.definitions)

def hasAnyIndex (ix : PropertyIndex) : Bool := !ix.definitions.keys.isEmpty

/-! ## Entries -/

/-- Enter a value of a node.  The float entries are kept sorted in the source; nothing depends on
their order. -/
def indexProperty (ix : PropertyIndex) (id : NodeId) (property : String) (value : PropertyValue) :
    PropertyIndex :=
  let ix := { ix with
    exactIndex := HashMap.modifyDefault ix.exactIndex (property, value) (HashSet.add · id)
    nodeToKeys := HashMap.modifyDefault ix.nodeToKeys id (HashSet.add · (property, value)) }
  match value with
  | .int n =>
      { ix with
        intRangeIndex := HashMap.modifyDefault ix.intRangeIndex property
          (HashMap.modifyDefault · n (HashSet.add · id)) }
  | .float x =>
      { ix with
        floatRangeIndex := HashMap.modifyDefault ix.floatRangeIndex property (· ++ [(x, id)]) }
  | _ => ix

/-- Take a node out of the entry of a value; an emptied entry is dropped. -/
def removeFrom {K : Type} [DecidableEq K] (m : HashMap K (HashSet NodeId)) (k : K) (id : NodeId) :
    HashMap K (HashSet NodeId) :=
  match m.lookup k with
  | none => m
  | some nodes => if (nodes.remove id).keys.isEmpty then m.erase k else m.replace k (nodes.remove id)

/-- Take a value of a node out of the exact and the range entries. -/
def removeEntry (ix : PropertyIndex) (id : NodeId) (property : String) (value : PropertyValue) :
    PropertyIndex :=
  let ix := { ix with exactIndex := removeFrom ix.exactIndex (property, value) id }
  match value with
  | .int n =>
      { ix with
        intRangeIndex := HashMap.modify ix.intRangeIndex property (removeFrom · n id) }
  | .float x =>
      { ix with
        floatRangeIndex := HashMap.modify ix.floatRangeIndex property
          (·.filter fun e => !(e.1.numEq x && e.2 == id)) }
  | _ => ix

/-- Take out a value of a node. -/
def unindexProperty (ix : PropertyIndex) (id : NodeId) (property : String)
    (value : PropertyValue) : PropertyIndex :=
  let ix := removeEntry ix id property value
  { ix with nodeToKeys := HashMap.modify ix.nodeToKeys id (HashSet.remove · (property, value)) }

/-- Take out all values of a node. -/
def removeNode (ix : PropertyIndex) (id : NodeId) : PropertyIndex :=
  match ix.nodeToKeys.lookup id with
  | none => ix
  | some keys =>
      keys.toList.foldl (fun ix key => removeEntry ix id key.1 key.2)
        { ix with nodeToKeys := ix.nodeToKeys.erase id }

/-! ## Queries -/

/-- The nodes with exactly this value. -/
def findByProperty (ix : PropertyIndex) (property : String) (value : PropertyValue) : List NodeId :=
  (HashMap.getDefault ix.exactIndex (property, value)).toList

/-- The nodes with an integer in the range. -/
def findByIntRange (ix : PropertyIndex) (property : String) (min max : Int64) : List NodeId :=
  (((HashMap.getDefault ix.intRangeIndex property).entries.filter fun e =>
    min ≤ e.1 && e.1 ≤ max).flatMap fun e => HashSet.toList e.2).dedup

/-- The nodes with a float in the range. -/
def findByFloatRange (ix : PropertyIndex) (property : String) (min max : F64) : List NodeId :=
  ((HashMap.getDefault ix.floatRangeIndex property).filter fun e =>
    F64.le min e.1 && F64.le e.1 max).map (·.2)

end PropertyIndex

end Maharit
