import MaharitDb.Cluster.Strategy
import Mathlib.Algebra.BigOperators.Group.List.Basic
import Mathlib.Algebra.Order.BigOperators.Group.List

/-!
# Rebalancing

`ShardMap::rebalance_plan` (`maharit-cluster/src/shard.rs`): the shards above the ideal number of nodes give nodes to
those below it, in the order of their identifiers.  The loop has a cursor in each of the two lists; what it moves
out of a shard never exceeds the surplus, and as the surpluses are at least the deficits, every deficit is filled.
The numbers of nodes are summed up in 64 bits, and beyond that the ideal is wrong.
-/

namespace Maharit

/-- A planned single-node migration between two shards. -/
structure ShardMove where
  nodeId : ℕ
  fromShard : ShardId
  toShard : ShardId
  deriving DecidableEq, Repr

/-! ## The plan -/

/-- The moves of one batch; the node identifiers are made up. -/
def batchMoves (next : ℕ) (source target : ShardId) (batch : ℕ) : List ShardMove :=
  (List.range batch).map fun i => ⟨next + i, source, target⟩

/-- The list after a batch was taken from its first entry, which goes when nothing is left of it. -/
def remaining (shard : ShardId) (amount batch : ℕ) (rest : List (ShardId × ℕ)) : List (ShardId × ℕ) :=
  if batch < amount then (shard, amount - batch) :: rest else rest

lemma length_remaining (shard : ShardId) (amount batch : ℕ) (rest : List (ShardId × ℕ)) :
    (remaining shard amount batch rest).length = rest.length + if batch < amount then 1 else 0 := by
  unfold remaining
  split <;> rfl

/-- The loop over the shards with a surplus and those with a deficit. -/
def planMoves (next : ℕ) : (overs unders : List (ShardId × ℕ)) → List ShardMove
  | (source, surplus) :: overs, (target, deficit) :: unders =>
      batchMoves next source target (min surplus deficit) ++
        planMoves (next + min surplus deficit)
          (remaining source surplus (min surplus deficit) overs)
          (remaining target deficit (min surplus deficit) unders)
  | _, _ => []
termination_by overs unders => overs.length + unders.length
decreasing_by
  rw [length_remaining, length_remaining, List.length_cons, List.length_cons]
  split_ifs <;> omega

namespace ShardMap

/-- The sum of the numbers of nodes in 64 bits: beyond them a panic with overflow checks, and the remainder
without them. -/
def totalNodes (checks : Bool) (active : List ShardInfo) : Option ℕ :=
  let total := (active.map fun s => s.nodeCount.toNat).sum
  if total < 2 ^ 64 then some total else if checks then none else some (total % 2 ^ 64)

/-- The shards with more nodes than the ideal, by identifier. -/
def overLoaded (ideal : ℕ) (active : List ShardInfo) : List (ShardId × ℕ) :=
  ((active.filter fun s => ideal < s.nodeCount.toNat).map fun s =>
    (s.id, s.nodeCount.toNat - ideal)).mergeSort fun a b => decide (a.1 ≤ b.1)

/-- The shards with fewer nodes than the ideal, by identifier. -/
def underLoaded (ideal : ℕ) (active : List ShardInfo) : List (ShardId × ℕ) :=
  ((active.filter fun s => s.nodeCount.toNat < ideal).map fun s =>
    (s.id, ideal - s.nodeCount.toNat)).mergeSort fun a b => decide (a.1 ≤ b.1)

/-- The plan for a given ideal. -/
def planFor (ideal : ℕ) (active : List ShardInfo) : List ShardMove :=
  planMoves 0 (overLoaded ideal active) (underLoaded ideal active)

/-- `rebalance_plan`; nothing when it panics. -/
def rebalancePlan (checks : Bool) (m : ShardMap) : Option (List ShardMove) :=
  if m.activeShards.length < 2 then some []
  else (totalNodes checks m.activeShards).map fun total =>
    planFor (total / m.activeShards.length) m.activeShards

/-- Every shard is registered under its own identifier, as `add_shard` does. -/
def Keyed (m : ShardMap) : Prop := ∀ id info, m.shards.lookup id = some info → info.id = id

lemma keyed_new : new.Keyed := by
  intro id info hlookup
  cases hlookup

lemma Keyed.addShard {m m' : ShardMap} (hm : m.Keyed) {info : ShardInfo} (h : m.addShard info = .ok m') :
    m'.Keyed := by
  unfold ShardMap.addShard at h
  split at h
  · cases h
  · cases h
    intro id info' hlookup
    by_cases hid : id = info.id
    · subst hid
      rw [AList.lookup_insert] at hlookup
      rw [Option.some.inj hlookup]
    · rw [AList.lookup_insert_ne hid] at hlookup
      exact hm id info' hlookup

lemma Keyed.nodup_ids {m : ShardMap} (hm : m.Keyed) : (m.activeShards.map ShardInfo.id).Nodup := by
  have hkeys : (m.shards.entries.map (·.2)).map ShardInfo.id = m.shards.keys := by
    rw [List.map_map]
    refine List.map_congr_left fun e he => ?_
    exact hm e.1 e.2 ((List.mem_dlookup_iff m.shards.nodupKeys).mpr he)
  have hnodup : ((m.shards.entries.map (·.2)).map ShardInfo.id).Nodup := by
    rw [hkeys]
    exact m.shards.nodupKeys
  exact hnodup.sublist (List.filter_sublist.map _)

end ShardMap

/-! ## What the loop moves -/

/-- The number of nodes that leave a shard. -/
def movedOut (moves : List ShardMove) (id : ShardId) : ℕ := moves.countP fun mv => mv.fromShard = id

/-- The number of nodes that a shard receives. -/
def movedIn (moves : List ShardMove) (id : ShardId) : ℕ := moves.countP fun mv => mv.toShard = id

/-- What a list of surpluses or deficits has for a shard. -/
def capacity (l : List (ShardId × ℕ)) (id : ShardId) : ℕ := (l.map fun e => if e.1 = id then e.2 else 0).sum

/-- What a list of surpluses or deficits has in all. -/
def totalCapacity (l : List (ShardId × ℕ)) : ℕ := (l.map Prod.snd).sum

lemma movedOut_batchMoves (next : ℕ) (source target : ShardId) (batch : ℕ) (id : ShardId) :
    movedOut (batchMoves next source target batch) id = if source = id then batch else 0 := by
  simp only [movedOut, batchMoves, List.countP_map]
  by_cases hid : source = id
  · simp [Function.comp_def, hid]
  · simp [Function.comp_def, hid]

lemma movedIn_batchMoves (next : ℕ) (source target : ShardId) (batch : ℕ) (id : ShardId) :
    movedIn (batchMoves next source target batch) id = if target = id then batch else 0 := by
  simp only [movedIn, batchMoves, List.countP_map]
  by_cases hid : target = id
  · simp [Function.comp_def, hid]
  · simp [Function.comp_def, hid]

/-- The list after a batch was taken from its first entry. -/
lemma capacity_remaining (shard : ShardId) {amount batch : ℕ} (hbatch : batch ≤ amount)
    (l : List (ShardId × ℕ)) (id : ShardId) :
    capacity ((shard, amount) :: l) id =
      (if shard = id then batch else 0) +
        capacity (remaining shard amount batch l) id := by
  unfold remaining
  by_cases hlt : batch < amount
  · rw [if_pos hlt]
    simp only [capacity, List.map_cons, List.sum_cons]
    split <;> omega
  · rw [if_neg hlt]
    have hamount : amount = batch := by omega
    simp only [capacity, List.map_cons, List.sum_cons, hamount]

lemma totalCapacity_remaining (shard : ShardId) {amount batch : ℕ} (hbatch : batch ≤ amount)
    (l : List (ShardId × ℕ)) :
    totalCapacity ((shard, amount) :: l) =
      batch + totalCapacity (remaining shard amount batch l) := by
  unfold remaining
  by_cases hlt : batch < amount
  · rw [if_pos hlt]
    simp only [totalCapacity, List.map_cons, List.sum_cons]
    omega
  · rw [if_neg hlt]
    simp only [totalCapacity, List.map_cons, List.sum_cons]
    omega

/-- No entry is empty. -/
def Positive (l : List (ShardId × ℕ)) : Prop := ∀ e ∈ l, 0 < e.2

lemma Positive.remaining {shard : ShardId} {amount batch : ℕ} {l : List (ShardId × ℕ)}
    (h : Positive ((shard, amount) :: l)) :
    Positive (remaining shard amount batch l) := by
  intro e he
  unfold Maharit.remaining at he
  split at he
  · rcases List.mem_cons.mp he with rfl | he
    · show 0 < amount - batch
      omega
    · exact h e (List.mem_cons_of_mem _ he)
  · exact h e (List.mem_cons_of_mem _ he)

/-- The shards of the rest are among those of the list. -/
lemma fst_mem_remaining {shard id : ShardId} {amount batch : ℕ} {l : List (ShardId × ℕ)}
    (h : id ∈ (remaining shard amount batch l).map Prod.fst) :
    id ∈ ((shard, amount) :: l).map Prod.fst := by
  unfold remaining at h
  split at h
  · exact h
  · exact List.mem_cons_of_mem _ h

/-- Every move leads from a shard with a surplus to one with a deficit. -/
lemma planMoves_endpoints (next : ℕ) (overs unders : List (ShardId × ℕ)) :
    ∀ mv ∈ planMoves next overs unders,
      mv.fromShard ∈ overs.map Prod.fst ∧ mv.toShard ∈ unders.map Prod.fst := by
  induction next, overs, unders using planMoves.induct with
  | case1 next source surplus overs target deficit unders ih =>
    intro mv hmv
    rw [planMoves, List.mem_append] at hmv
    rcases hmv with hmv | hmv
    · obtain ⟨i, -, rfl⟩ := List.mem_map.mp hmv
      exact ⟨List.mem_cons_self, List.mem_cons_self⟩
    · exact ⟨fst_mem_remaining (ih mv hmv).1, fst_mem_remaining (ih mv hmv).2⟩
  | case2 next overs unders hne =>
    intro mv hmv
    rw [planMoves.eq_2 next overs unders hne] at hmv
    cases hmv

/-- No shard gives more than its surplus. -/
lemma movedOut_planMoves_le (next : ℕ) (overs unders : List (ShardId × ℕ)) (id : ShardId) :
    movedOut (planMoves next overs unders) id ≤ capacity overs id := by
  induction next, overs, unders using planMoves.induct with
  | case1 next source surplus overs target deficit unders ih =>
    have hbatch : min surplus deficit ≤ surplus := min_le_left _ _
    rw [planMoves, movedOut, List.countP_append, capacity_remaining source hbatch]
    exact Nat.add_le_add (movedOut_batchMoves next source target _ id).le ih
  | case2 next overs unders hne =>
    rw [planMoves.eq_2 next overs unders hne]
    exact Nat.zero_le _

/-- Every deficit is filled when the surpluses are large enough. -/
lemma movedIn_planMoves (next : ℕ) (overs unders : List (ShardId × ℕ)) (hover : Positive overs)
    (hunder : Positive unders) (henough : totalCapacity unders ≤ totalCapacity overs) (id : ShardId) :
    movedIn (planMoves next overs unders) id = capacity unders id := by
  induction next, overs, unders using planMoves.induct with
  | case1 next source surplus overs target deficit unders ih =>
    have hsurplus : min surplus deficit ≤ surplus := min_le_left _ _
    have hdeficit : min surplus deficit ≤ deficit := min_le_right _ _
    rw [totalCapacity_remaining source hsurplus, totalCapacity_remaining target hdeficit] at henough
    have hrest := ih hover.remaining hunder.remaining (by omega)
    rw [planMoves, movedIn, List.countP_append, capacity_remaining target hdeficit, ← hrest]
    exact congrArg (· + _) (movedIn_batchMoves next source target _ id)
  | case2 next overs unders hne =>
    rw [planMoves.eq_2 next overs unders hne]
    -- One of the lists is empty, and then so is the list of deficits.
    cases unders with
    | nil => rfl
    | cons e unders =>
      cases overs with
      | nil =>
        have hpos := hunder e List.mem_cons_self
        simp only [totalCapacity, List.map_cons, List.sum_cons, List.map_nil, List.sum_nil] at henough
        omega
      | cons e' overs => exact (hne e'.1 e'.2 overs e.1 e.2 unders rfl rfl).elim

/-! ## Surpluses and deficits -/

section Loaded

variable (f : ShardInfo → ℕ) {active : List ShardInfo}

/-- The shards with something, by identifier. -/
def loaded (active : List ShardInfo) : List (ShardId × ℕ) :=
  ((active.filter fun s => 0 < f s).map fun s => (s.id, f s)).mergeSort fun a b => decide (a.1 ≤ b.1)

lemma overLoaded_eq (ideal : ℕ) (active : List ShardInfo) :
    ShardMap.overLoaded ideal active = loaded (fun s => s.nodeCount.toNat - ideal) active := by
  unfold ShardMap.overLoaded loaded
  have hfilter : (active.filter fun s => decide (ideal < s.nodeCount.toNat)) =
      active.filter fun s => decide (0 < s.nodeCount.toNat - ideal) :=
    List.filter_congr fun s _ => by rw [decide_eq_decide]; omega
  rw [hfilter]

lemma underLoaded_eq (ideal : ℕ) (active : List ShardInfo) :
    ShardMap.underLoaded ideal active = loaded (fun s => ideal - s.nodeCount.toNat) active := by
  unfold ShardMap.underLoaded loaded
  have hfilter : (active.filter fun s => decide (s.nodeCount.toNat < ideal)) =
      active.filter fun s => decide (0 < ideal - s.nodeCount.toNat) :=
    List.filter_congr fun s _ => by rw [decide_eq_decide]; omega
  rw [hfilter]

lemma mem_loaded {e : ShardId × ℕ} : e ∈ loaded f active ↔ ∃ s ∈ active, 0 < f s ∧ (s.id, f s) = e := by
  simp only [loaded, List.mem_mergeSort, List.mem_map, List.mem_filter, decide_eq_true_eq, and_assoc]

lemma positive_loaded : Positive (loaded f active) := by
  intro e he
  obtain ⟨s, -, hpos, rfl⟩ := (mem_loaded f).mp he
  exact hpos

/-- A sum over the entries is one over all shards: those left out have nothing. -/
lemma sum_loaded (w : ShardId × ℕ → ℕ) (hw : ∀ id, w (id, 0) = 0) :
    ((loaded f active).map w).sum = (active.map fun s => w (s.id, f s)).sum := by
  have hperm := (List.mergeSort_perm ((active.filter fun s => 0 < f s).map fun s => (s.id, f s))
    fun a b => decide (a.1 ≤ b.1)).map w
  rw [loaded, hperm.sum_eq, List.map_map]
  induction active with
  | nil => rfl
  | cons s active ih =>
    have hrest := ih ((List.mergeSort_perm ((active.filter fun s => 0 < f s).map fun s => (s.id, f s))
      fun a b => decide (a.1 ≤ b.1)).map w)
    by_cases hs : 0 < f s
    · rw [List.filter_cons_of_pos (by simpa using hs), List.map_cons, List.sum_cons, hrest]
      rfl
    · have hzero : f s = 0 := by omega
      rw [List.filter_cons_of_neg (by simpa using hs), hrest, List.map_cons, List.sum_cons, hzero, hw]
      omega

lemma totalCapacity_loaded : totalCapacity (loaded f active) = (active.map f).sum :=
  sum_loaded f Prod.snd fun _ => rfl

/-- A sum in which only one shard counts. -/
lemma sum_of_id {s : ShardInfo} (hnodup : (active.map ShardInfo.id).Nodup) (hs : s ∈ active) :
    (active.map fun s' => if s'.id = s.id then f s' else 0).sum = f s := by
  induction active with
  | nil => cases hs
  | cons s' active ih =>
    rw [List.map_cons, List.nodup_cons] at hnodup
    rw [List.map_cons, List.sum_cons]
    have hother : ∀ s'' ∈ active, s''.id ≠ s'.id := fun s'' hs'' heq =>
      hnodup.1 (heq ▸ List.mem_map_of_mem hs'')
    rcases List.mem_cons.mp hs with rfl | hs
    · have hzero : (active.map fun s' => if s'.id = s.id then f s' else 0).sum = 0 := by
        rw [List.sum_eq_zero]
        intro n hn
        obtain ⟨s'', hs'', rfl⟩ := List.mem_map.mp hn
        exact if_neg (hother s'' hs'')
      rw [if_pos rfl, hzero]
      omega
    · rw [if_neg (hother s hs).symm, ih hnodup.2 hs]
      omega

lemma capacity_loaded {s : ShardInfo} (hnodup : (active.map ShardInfo.id).Nodup) (hs : s ∈ active) :
    capacity (loaded f active) s.id = f s := by
  have hsum : capacity (loaded f active) s.id = _ :=
    sum_loaded f (fun e => if e.1 = s.id then e.2 else 0) fun id => by simp
  exact hsum.trans (sum_of_id f hnodup hs)

end Loaded

/-- The surpluses exceed the deficits by what the shards have above the ideal on average. -/
lemma sum_deficits (ideal : ℕ) (active : List ShardInfo) :
    (active.map fun s => ideal - s.nodeCount.toNat).sum + (active.map fun s => s.nodeCount.toNat).sum =
      active.length * ideal + (active.map fun s => s.nodeCount.toNat - ideal).sum := by
  induction active with
  | nil => simp
  | cons s active ih =>
    simp only [List.map_cons, List.sum_cons, List.length_cons, Nat.add_mul, Nat.one_mul]
    omega

/-! ## What a plan does -/

/-- The plan for an ideal of which there is enough for all. -/
structure Fills (ideal : ℕ) (active : List ShardInfo) (moves : List ShardMove) : Prop where
  endpoints : ∀ mv ∈ moves, ∃ s ∈ active, ∃ s' ∈ active, mv.fromShard = s.id ∧ mv.toShard = s'.id ∧
    ideal < s.nodeCount.toNat ∧ s'.nodeCount.toNat < ideal
  movedOut : ∀ s ∈ active, movedOut moves s.id ≤ s.nodeCount.toNat - ideal
  movedIn : ∀ s ∈ active, movedIn moves s.id = ideal - s.nodeCount.toNat

lemma fills_planFor {ideal : ℕ} {active : List ShardInfo} (hnodup : (active.map ShardInfo.id).Nodup)
    (hideal : active.length * ideal ≤ (active.map fun s => s.nodeCount.toNat).sum) :
    Fills ideal active (ShardMap.planFor ideal active) := by
  unfold ShardMap.planFor
  rw [overLoaded_eq, underLoaded_eq]
  refine ⟨?_, ?_, ?_⟩
  · intro mv hmv
    obtain ⟨hfrom, hto⟩ := planMoves_endpoints 0 _ _ mv hmv
    obtain ⟨e, he, hfrom⟩ := List.mem_map.mp hfrom
    obtain ⟨e', he', hto⟩ := List.mem_map.mp hto
    obtain ⟨s, hs, hover, rfl⟩ := (mem_loaded _).mp he
    obtain ⟨s', hs', hunder, rfl⟩ := (mem_loaded _).mp he'
    exact ⟨s, hs, s', hs', hfrom.symm, hto.symm, by omega, by omega⟩
  · intro s hs
    exact (movedOut_planMoves_le 0 _ _ s.id).trans (capacity_loaded _ hnodup hs).le
  · intro s hs
    rw [movedIn_planMoves 0 _ _ (positive_loaded _) (positive_loaded _) ?_, capacity_loaded _ hnodup hs]
    rw [totalCapacity_loaded, totalCapacity_loaded]
    have hsum := sum_deficits ideal active
    omega

/-- Moves between shards of a list leave as many as they move. -/
lemma sum_countP {active : List ShardInfo} (hnodup : (active.map ShardInfo.id).Nodup)
    (shardOf : ShardMove → ShardId) (moves : List ShardMove)
    (hmoves : ∀ mv ∈ moves, ∃ s ∈ active, shardOf mv = s.id) :
    (active.map fun s => moves.countP fun mv => shardOf mv = s.id).sum = moves.length := by
  induction moves with
  | nil => simp
  | cons mv moves ih =>
    have hrest := ih fun mv' hmv' => hmoves mv' (List.mem_cons_of_mem _ hmv')
    obtain ⟨s, hs, hmv⟩ := hmoves mv List.mem_cons_self
    have hone := sum_of_id (fun _ => 1) hnodup hs
    have hsplit : (active.map fun s' => (mv :: moves).countP fun mv => shardOf mv = s'.id) =
        active.map fun s' => (moves.countP fun mv => shardOf mv = s'.id) + if s'.id = s.id then 1 else 0 := by
      refine List.map_congr_left fun s' _ => ?_
      rw [List.countP_cons, hmv]
      by_cases heq : s'.id = s.id
      · simp [heq]
      · simp [heq, Ne.symm heq]
    rw [hsplit, List.sum_map_add, hrest, hone, List.length_cons]

/-- The number of nodes of a shard after the moves. -/
def nodesAfter (moves : List ShardMove) (s : ShardInfo) : ℕ :=
  s.nodeCount.toNat + movedIn moves s.id - movedOut moves s.id

/-- The moves balance the shards: they lead between different active shards, take no more out of a shard than its
surplus, leave the total unchanged, and bring each shard that was below the ideal to the ideal. -/
structure Balances (active : List ShardInfo) (moves : List ShardMove) : Prop where
  endpoints : ∀ mv ∈ moves, mv.fromShard ≠ mv.toShard ∧
    (∃ s ∈ active, mv.fromShard = s.id) ∧ ∃ s ∈ active, mv.toShard = s.id
  surplus : ∀ s ∈ active, movedOut moves s.id ≤
    s.nodeCount.toNat - (active.map fun s => s.nodeCount.toNat).sum / active.length
  total : (active.map (nodesAfter moves)).sum = (active.map fun s => s.nodeCount.toNat).sum
  ideal : ∀ s ∈ active,
    s.nodeCount.toNat < (active.map fun s => s.nodeCount.toNat).sum / active.length →
      nodesAfter moves s = (active.map fun s => s.nodeCount.toNat).sum / active.length

lemma total_of_moves {active : List ShardInfo} (hnodup : (active.map ShardInfo.id).Nodup)
    {moves : List ShardMove} (hfrom : ∀ mv ∈ moves, ∃ s ∈ active, mv.fromShard = s.id)
    (hto : ∀ mv ∈ moves, ∃ s ∈ active, mv.toShard = s.id)
    (hout : ∀ s ∈ active, movedOut moves s.id ≤ s.nodeCount.toNat) :
    (active.map (nodesAfter moves)).sum = (active.map fun s => s.nodeCount.toNat).sum := by
  have hleft : (active.map fun s => movedOut moves s.id).sum = moves.length :=
    sum_countP hnodup ShardMove.fromShard moves hfrom
  have harrived : (active.map fun s => movedIn moves s.id).sum = moves.length :=
    sum_countP hnodup ShardMove.toShard moves hto
  have hsum : (active.map (nodesAfter moves)).sum + (active.map fun s => movedOut moves s.id).sum =
      (active.map fun s => s.nodeCount.toNat).sum + (active.map fun s => movedIn moves s.id).sum := by
    rw [← List.sum_map_add, ← List.sum_map_add]
    refine congrArg List.sum (List.map_congr_left fun s hs => ?_)
    have hle := hout s hs
    unfold nodesAfter
    omega
  omega

/-- A plan for the right ideal balances the shards. -/
lemma Fills.balances {active : List ShardInfo} (hnodup : (active.map ShardInfo.id).Nodup)
    {moves : List ShardMove}
    (h : Fills ((active.map fun s => s.nodeCount.toNat).sum / active.length) active moves) :
    Balances active moves where
  endpoints mv hmv := by
    obtain ⟨s, hs, s', hs', hfrom, hto, hover, hunder⟩ := h.endpoints mv hmv
    refine ⟨fun heq => ?_, ⟨s, hs, hfrom⟩, s', hs', hto⟩
    have hsame : s = s' :=
      List.inj_on_of_nodup_map hnodup hs hs' (hfrom.symm.trans (heq.trans hto))
    rw [hsame] at hover
    omega
  surplus s hs := h.movedOut s hs
  total := by
    refine total_of_moves hnodup (fun mv hmv => ?_) (fun mv hmv => ?_) fun s hs => ?_
    · obtain ⟨s, hs, -, -, hfrom, -⟩ := h.endpoints mv hmv
      exact ⟨s, hs, hfrom⟩
    · obtain ⟨-, -, s', hs', -, hto, -⟩ := h.endpoints mv hmv
      exact ⟨s', hs', hto⟩
    · exact (h.movedOut s hs).trans (Nat.sub_le _ _)
  ideal s hs hbelow := by
    have hout := h.movedOut s hs
    have hin := h.movedIn s hs
    unfold nodesAfter
    omega

/-- No moves balance the shards when none is below the ideal. -/
lemma balances_nil {active : List ShardInfo}
    (h : ∀ s ∈ active, (active.map fun s => s.nodeCount.toNat).sum / active.length ≤ s.nodeCount.toNat) :
    Balances active [] where
  endpoints mv hmv := by cases hmv
  surplus s hs := Nat.zero_le _
  total := congrArg List.sum (List.map_congr_left fun s _ => rfl)
  ideal s hs hbelow := absurd (h s hs) (Nat.not_le.mpr hbelow)

/-! ## When the plan balances -/

lemma length_le_of_nodup_ids {active : List ShardInfo} (hnodup : (active.map ShardInfo.id).Nodup) :
    active.length ≤ 2 ^ 32 := by
  have hsubset : ((active.map ShardInfo.id).map UInt32.toNat) ⊆ List.range (2 ^ 32) := by
    intro n hn
    obtain ⟨id, -, rfl⟩ := List.mem_map.mp hn
    exact List.mem_range.mpr id.toNat_lt
  have hinj : ((active.map ShardInfo.id).map UInt32.toNat).Nodup :=
    hnodup.map fun a b h => UInt32.toNat_inj.mp h
  have hle := (List.subperm_of_subset hinj hsubset).length_le
  rwa [List.length_map, List.length_map, List.length_range] at hle

/-- The plan of `rebalance_plan` exists and balances the active shards. -/
def PlanBalances (checks : Bool) (m : ShardMap) : Prop :=
  ∃ moves, m.rebalancePlan checks = some moves ∧ Balances m.activeShards moves

/-- The plan is right if and only if the numbers of nodes add up to less than 2 ^ 64, or, without overflow checks,
no active shard is below the ideal. -/
theorem planBalances_iff (checks : Bool) {m : ShardMap} (hm : m.Keyed) :
    PlanBalances checks m ↔
      (m.activeShards.map fun s => s.nodeCount.toNat).sum < 2 ^ 64 ∨
        checks = false ∧ ∀ s ∈ m.activeShards,
          (m.activeShards.map fun s => s.nodeCount.toNat).sum / m.activeShards.length ≤ s.nodeCount.toNat := by
  have hnodup := hm.nodup_ids
  have hlength := length_le_of_nodup_ids hnodup
  unfold PlanBalances ShardMap.rebalancePlan ShardMap.totalNodes
  generalize m.activeShards = active at hnodup hlength ⊢
  set total := (active.map fun s => s.nodeCount.toNat).sum with htotal
  by_cases hfew : active.length < 2
  · -- A single shard is at the ideal.
    have hideal : ∀ s ∈ active, total / active.length ≤ s.nodeCount.toNat := by
      intro s hs
      match active, hfew with
      | [s'], _ =>
        obtain rfl : s = s' := List.mem_singleton.mp hs
        simp [htotal]
    have hsmall : total < 2 ^ 64 := by
      match active, hfew with
      | [], _ => simp [htotal]
      | [s'], _ => simpa [htotal] using s'.nodeCount.toNat_lt
    rw [if_pos hfew]
    exact iff_of_true ⟨[], rfl, balances_nil hideal⟩ (Or.inl hsmall)
  · rw [if_neg hfew]
    have hpos : 0 < active.length := by omega
    by_cases hsmall : total < 2 ^ 64
    · rw [if_pos hsmall, Option.map_some]
      refine iff_of_true ⟨_, rfl, ?_⟩ (Or.inl hsmall)
      exact (fills_planFor hnodup (Nat.mul_div_le total active.length)).balances hnodup
    · rw [if_neg hsmall]
      cases checks with
      | true =>
        refine iff_of_false ?_ ?_
        · rintro ⟨moves, hmoves, -⟩
          cases hmoves
        · rintro (hlt | ⟨hchecks, -⟩)
          · exact hsmall hlt
          · cases hchecks
      | false =>
        -- The sum wraps around, and the ideal it gives is too small.
        set wrapped := total % 2 ^ 64
        have hwrapped : wrapped + 2 ^ 64 ≤ total := by omega
        have hless : wrapped / active.length < total / active.length := by
          have hstep : (wrapped + active.length) / active.length = wrapped / active.length + 1 :=
            Nat.add_div_right wrapped hpos
          have hmono : (wrapped + active.length) / active.length ≤ total / active.length :=
            Nat.div_le_div_right (by omega)
          omega
        have hfills : Fills (wrapped / active.length) active
            (ShardMap.planFor (wrapped / active.length) active) :=
          fills_planFor hnodup ((Nat.mul_div_le wrapped active.length).trans (by omega))
        simp only [Bool.false_eq_true, if_false, Option.map_some, Option.some.injEq, exists_eq_left', hsmall,
          true_and, false_or]
        constructor
        · intro hbalances s hs
          by_contra hbelow
          have hafter := hbalances.ideal s hs (Nat.not_le.mp hbelow)
          have hin := hfills.movedIn s hs
          rw [nodesAfter, ← htotal] at hafter
          omega
        · intro hideal
          have hnone : ShardMap.planFor (wrapped / active.length) active = [] := by
            cases hplan : ShardMap.planFor (wrapped / active.length) active with
            | nil => rfl
            | cons mv moves =>
              obtain ⟨-, -, s', hs', -, -, -, hunder⟩ := hfills.endpoints mv (hplan ▸ List.mem_cons_self)
              have hle := hideal s' hs'
              omega
          rw [hnone]
          exact balances_nil hideal

/-- Two shards, one of which is full. -/
def fullAndEmpty : ShardMap :=
  ⟨((∅ : HashMap ShardId ShardInfo).insert 1 ⟨1, .active, 0xFFFFFFFFFFFFFFFF⟩).insert 2 ⟨2, .active, 1⟩⟩

lemma keyed_fullAndEmpty : fullAndEmpty.Keyed := by
  intro id info hlookup
  by_cases htwo : id = 2
  · subst htwo
    cases hlookup
    rfl
  · by_cases hone : id = 1
    · subst hone
      cases hlookup
      rfl
    · have hnone : fullAndEmpty.shards.lookup id = none :=
        (AList.lookup_insert_ne htwo).trans (AList.lookup_insert_ne hone)
      rw [hnone] at hlookup
      cases hlookup

theorem planBalances_iff_fullAndEmpty :
    PlanBalances false fullAndEmpty ↔
      (fullAndEmpty.activeShards.map fun s => s.nodeCount.toNat).sum < 2 ^ 64 ∨
        false = false ∧ ∀ s ∈ fullAndEmpty.activeShards,
          (fullAndEmpty.activeShards.map fun s => s.nodeCount.toNat).sum / fullAndEmpty.activeShards.length ≤
            s.nodeCount.toNat :=
  planBalances_iff false keyed_fullAndEmpty

/-- No shard is below an ideal of nothing. -/
lemma planFor_zero (active : List ShardInfo) : ShardMap.planFor 0 active = [] := by
  have hunder : ShardMap.underLoaded 0 active = [] := by
    rw [underLoaded_eq]
    refine List.eq_nil_iff_forall_not_mem.mpr fun e he => ?_
    obtain ⟨s, -, hpos, -⟩ := (mem_loaded _).mp he
    omega
  rw [ShardMap.planFor, hunder]
  refine planMoves.eq_2 0 _ _ ?_
  intro source surplus overs target deficit unders _ hnil
  cases hnil

/-- The sum of the numbers of nodes does not fit: it is a panic, or nothing, and then the second shard stays as it
is. -/
theorem not_planBalances_overflow :
    ¬ PlanBalances true fullAndEmpty ∧ ¬ PlanBalances false fullAndEmpty := by
  constructor
  · rintro ⟨moves, hmoves, -⟩
    have hnone : fullAndEmpty.rebalancePlan true = none := by decide
    rw [hnone] at hmoves
    cases hmoves
  · rintro ⟨moves, hmoves, hbalances⟩
    have hplan : fullAndEmpty.rebalancePlan false = some (ShardMap.planFor 0 fullAndEmpty.activeShards) := rfl
    rw [hplan, planFor_zero] at hmoves
    cases hmoves
    have hafter := hbalances.ideal ⟨2, .active, 1⟩ (by decide) (by decide)
    exact absurd hafter (by decide)

end Maharit
