import MaharitDb.Cluster.Strategy

/-!
# Query routing

The router decides which shards a query visits (`maharit-cluster/src/router.rs`).  A scan for a label
goes to a single shard when the ids 0 and 1 would be put there, and to all active shards otherwise.
Two probes tell a strategy that looks at the label from hash sharding, but not from range sharding:
there the two ids may be in one range (`mem_routeLabelQuery_iff`).
-/

namespace Maharit

/-- The outcome of a routing decision for a single query operation. -/
inductive RoutingDecision where
  | singleShard (id : ShardId)
  | multiShard (ids : List ShardId)
  | broadcast
  deriving DecidableEq, Repr

/-- Routes queries to shards. -/
structure QueryRouter where
  shardMap : ShardMap
  strategy : ShardingStrategy

namespace QueryRouter

/-- The shard for a specific node. -/
def routeNodeQuery (router : QueryRouter) (nodeId : UInt64) (label : String) : ShardId :=
  router.strategy.shardForNode nodeId label

/-- The ids of every active shard. -/
def routeAll (router : QueryRouter) : List ShardId :=
  (router.shardMap.activeShards.map (·.id)).mergeSort fun a b => a ≤ b

/-- The shards that might contain nodes with the given label. -/
def routeLabelQuery (router : QueryRouter) (label : String) : List ShardId :=
  let shardA := router.strategy.shardForNode 0 label
  let shardB := router.strategy.shardForNode 1 label
  if shardA = shardB then [shardA] else router.routeAll

/-- The decision for a label scan. -/
def decideForLabel (router : QueryRouter) (label : String) : RoutingDecision :=
  match router.routeLabelQuery label with
  | [] => .broadcast
  | [shard] => .singleShard shard
  | shards => .multiShard shards

/-- All shards the strategy can return are active. -/
def AllActive (router : QueryRouter) : Prop :=
  ∀ nodeId label, ∃ info ∈ router.shardMap.activeShards,
    info.id = router.strategy.shardForNode nodeId label

/-- With range sharding, the ids 0 and 1 belong to different shards, or the node's id belongs to the
shard of the id 0.  The other strategies are not restricted. -/
def Probed (strategy : ShardingStrategy) (nodeId : UInt64) (label : String) : Prop :=
  match strategy with
  | .range s => s.shardForNode 0 label = s.shardForNode 1 label →
      s.shardForNode nodeId label = s.shardForNode 0 label
  | _ => True

lemma mem_routeAll {router : QueryRouter} {shard : ShardId} :
    shard ∈ router.routeAll ↔ ∃ info ∈ router.shardMap.activeShards, info.id = shard := by
  simp [routeAll]

/-- The probes are decisive exactly when the node is on the shard they agree on. -/
lemma probed_iff (strategy : ShardingStrategy) (nodeId : UInt64) (label : String) :
    Probed strategy nodeId label ↔
      (strategy.shardForNode 0 label = strategy.shardForNode 1 label →
        strategy.shardForNode nodeId label = strategy.shardForNode 0 label) := by
  cases strategy with
  | range s => exact Iff.rfl
  | label s => exact iff_of_true trivial fun _ => rfl
  | hash s =>
    refine iff_of_true trivial fun hsame => ?_
    have hone := HashSharding.shardCount_eq_one label hsame
    have hzero : ∀ id : UInt64, s.shardForNode id label = 0 := by
      intro id
      apply UInt32.toNat_inj.mp
      simp [HashSharding.shardForNode, hone]
    exact (hzero nodeId).trans (hzero 0).symm

/-- A label scan visits the shard of every node that may carry the label, unless range sharding puts
the ids 0 and 1 on one shard and the node on another one. -/
theorem mem_routeLabelQuery_iff (router : QueryRouter) (hactive : router.AllActive) (label : String)
    (nodeId : UInt64) :
    router.strategy.shardForNode nodeId label ∈ router.routeLabelQuery label ↔
      Probed router.strategy nodeId label := by
  rw [probed_iff]
  unfold routeLabelQuery
  simp only
  split
  · next hsame => simp [hsame]
  · next hdiffer => exact iff_of_true (mem_routeAll.mpr (hactive nodeId label)) fun h => absurd h hdiffer

/-- Two active shards under label sharding: a scan for the label finds the shard of node 7. -/
theorem mem_routeLabelQuery_label :
    (1 : ShardId) ∈ routeLabelQuery ⟨⟨AList.insert 0 ⟨0, .active, 3⟩ (AList.insert 1 ⟨1, .active, 2⟩ ∅)⟩,
      .label ⟨AList.insert "Person" 1 ∅, 0⟩⟩ "Person" := by
  refine (mem_routeLabelQuery_iff ⟨⟨AList.insert 0 ⟨0, .active, 3⟩ (AList.insert 1 ⟨1, .active, 2⟩ ∅)⟩,
      .label ⟨AList.insert "Person" 1 ∅, 0⟩⟩ (fun nodeId label => ?_) "Person" 7).mpr trivial
  by_cases hlabel : label = "Person"
  · subst hlabel
    exact ⟨⟨1, .active, 2⟩, by decide, rfl⟩
  · refine ⟨⟨0, .active, 3⟩, by decide, ?_⟩
    have hlookup : ((∅ : HashMap String ShardId).insert "Person" 1).lookup label = none := by
      rw [HashMap.lookup_insert_ite, if_neg hlabel]
      rfl
    rw [ShardingStrategy.shardForNode, LabelSharding.shardForNode, hlookup]
    rfl

/-- Range sharding with the range `[0, 99]` on shard 0 and the rest on shard 1: a label scan does not
visit the shard of node 150. -/
theorem not_mem_routeLabelQuery_range :
    ∃ router : QueryRouter, router.AllActive ∧
      router.strategy.shardForNode 150 "Person" ∉ router.routeLabelQuery "Person" := by
  refine ⟨⟨⟨AList.insert 0 ⟨0, .active, 3⟩ (AList.insert 1 ⟨1, .active, 2⟩ ∅)⟩,
    .range ((RangeSharding.new 1).addRange 0 99 0)⟩, fun nodeId label => ?_, by decide⟩
  by_cases hrange : nodeId ≤ 99
  · refine ⟨⟨0, .active, 3⟩, by decide, ?_⟩
    simp [ShardingStrategy.shardForNode, RangeSharding.shardForNode, RangeSharding.new,
      RangeSharding.addRange, hrange]
  · refine ⟨⟨1, .active, 2⟩, by decide, ?_⟩
    simp [ShardingStrategy.shardForNode, RangeSharding.shardForNode, RangeSharding.new,
      RangeSharding.addRange, hrange]

end QueryRouter

end Maharit
