import MaharitDb.Lib.AssocMap

/-!
# Shards and sharding strategies

The shard map (`maharit-cluster/src/shard.rs`) and the three strategies that assign nodes to shards
(`maharit-cluster/src/strategy.rs`).  The addresses of the shards and the names of the strategies are
left out: they decide nothing here.
-/

namespace Maharit

/-- Unique identifier for a shard within the cluster. -/
abbrev ShardId := UInt32

/-- Lifecycle status of a shard. -/
inductive ShardStatus where
  | active
  | inactive
  | rebalancing
  deriving DecidableEq, Repr

/-- Metadata describing a single shard. -/
structure ShardInfo where
  id : ShardId
  status : ShardStatus
  /-- Approximate number of nodes stored in this shard. -/
  nodeCount : UInt64
  deriving DecidableEq, Repr

/-- The registry of all shards in the cluster. -/
structure ShardMap where
  shards : HashMap ShardId ShardInfo

/-- Errors that can occur during shard map operations. -/
inductive ShardError where
  | alreadyExists (id : ShardId)
  | notFound (id : ShardId)
  deriving DecidableEq, Repr

namespace ShardMap

/-- An empty shard map. -/
def new : ShardMap := ⟨∅⟩

/-- Register a new shard. -/
def addShard (m : ShardMap) (info : ShardInfo) : Except ShardError ShardMap :=
  if info.id ∈ m.shards then .error (.alreadyExists info.id)
  else .ok ⟨m.shards.insert info.id info⟩

/-- All shards currently in the state `Active`. -/
def activeShards (m : ShardMap) : List ShardInfo :=
  (m.shards.entries.map (·.2)).filter fun s => s.status = .active

end ShardMap

/-- Assigns nodes to shards by `node_id % shard_count`. -/
structure HashSharding where
  shardCount : UInt64
  /-- `new` panics otherwise. -/
  pos : 0 < shardCount

/-- A range of ids, both bounds inclusive, and its shard. -/
structure RangeEntry where
  minId : UInt64
  maxId : UInt64
  shardId : ShardId

/-- Assigns nodes to shards by the first range that contains their id. -/
structure RangeSharding where
  ranges : List RangeEntry
  defaultShard : ShardId

/-- Assigns nodes to shards by their label. -/
structure LabelSharding where
  labelMap : HashMap String ShardId
  defaultShard : ShardId

/-- The strategies of the crate. -/
inductive ShardingStrategy where
  | hash (s : HashSharding)
  | range (s : RangeSharding)
  | label (s : LabelSharding)

namespace HashSharding

def shardForNode (s : HashSharding) (nodeId : UInt64) (_label : String) : ShardId :=
  (nodeId % s.shardCount).toUInt32

/-- The ids 0 and 1 are on different shards unless there is only one shard. -/
lemma shardCount_eq_one {s : HashSharding} (label : String)
    (h : s.shardForNode 0 label = s.shardForNode 1 label) : s.shardCount = 1 := by
  by_contra hne
  have hpos : 0 < s.shardCount.toNat := by simpa [UInt64.lt_iff_toNat_lt] using s.pos
  have hne' : s.shardCount.toNat ≠ 1 := fun h => hne (UInt64.toNat_inj.mp h)
  have hone : (1 : ℕ) % s.shardCount.toNat = 1 := Nat.mod_eq_of_lt (by omega)
  have htoNat := congrArg UInt32.toNat h
  simp [shardForNode, hone] at htoNat

end HashSharding

namespace RangeSharding

/-- No ranges. -/
def new (defaultShard : ShardId) : RangeSharding := ⟨[], defaultShard⟩

/-- Register a range. -/
def addRange (s : RangeSharding) (minId maxId : UInt64) (shardId : ShardId) : RangeSharding :=
  { s with ranges := s.ranges ++ [⟨minId, maxId, shardId⟩] }

/-- The first range that contains the id wins. -/
def shardForNode (s : RangeSharding) (nodeId : UInt64) (_label : String) : ShardId :=
  match s.ranges.find? fun entry => nodeId ≥ entry.minId && nodeId ≤ entry.maxId with
  | some entry => entry.shardId
  | none => s.defaultShard

end RangeSharding

namespace LabelSharding

def shardForNode (s : LabelSharding) (_nodeId : UInt64) (label : String) : ShardId :=
  (s.labelMap.lookup label).getD s.defaultShard

end LabelSharding

/-- The shard of a node, given its id and label. -/
def ShardingStrategy.shardForNode : ShardingStrategy → UInt64 → String → ShardId
  | .hash s => s.shardForNode
  | .range s => s.shardForNode
  | .label s => s.shardForNode

end Maharit
