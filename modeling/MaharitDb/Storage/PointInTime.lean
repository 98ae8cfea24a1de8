import Mathlib.Data.FinEnum
import Mathlib.Data.Set.Card
import MaharitDb.Storage.BackupCopy
import MaharitDb.Storage.WalRecovery

/-!
# Point-in-time recovery

`restore_to_point_in_time` (`maharit-storage/src/backup.rs`) restores a full backup and replays the
log up to a time stamp.  It replays the log from its first record, also the records that the backup
already contains.  So every node of the backup is there twice, once from the backup and once from the
record that created it: the nodes of the backup are never touched by the replay (`Beside`), and the
result is a copy of the live graph only when the backup has no nodes.  In that case the replay is a
recovery into an empty graph.
-/

namespace Maharit

open WalCodec GuardedRun

namespace Backup

/-- One round of the replay.  The orders are those in which a node deletion iterates over its edge
sets. -/
def replayRecord (orders : IterOrder × IterOrder) (state : Recovery) (r : LogRecord) : Recovery :=
  let (graph, idMap) := state
  match r.payload with
  | .createNode nodeId label =>
      let (graph, newId) := graph.createNode label
      (graph, idMap.insert nodeId newId)
  | .deleteNode nodeId =>
      let actual := (idMap.lookup nodeId).getD nodeId
      ((graph.deleteNode orders.1 orders.2 actual).1, idMap.erase nodeId)
  | .createEdge _ fromNode toNode label =>
      let actualFrom := (idMap.lookup fromNode).getD fromNode
      let actualTo := (idMap.lookup toNode).getD toNode
      if (graph.getNode actualFrom).isSome && (graph.getNode actualTo).isSome then
        ((graph.createEdge actualFrom actualTo label).1, idMap)
      else (graph, idMap)
  | .deleteEdge edgeId => ((graph.deleteEdge edgeId).1, idMap)
  | .setNodeProperty nodeId key value =>
      let actual := (idMap.lookup nodeId).getD nodeId
      (graph.setNodeProperty actual key value, idMap)
  | .setEdgeProperty edgeId key value => (graph.setEdgeProperty edgeId key value, idMap)
  | .checkpoint _ => (graph, idMap)

/-- Replay records one after the other; the `i`-th one iterates over edge sets in the `i`-th pair of
orders. -/
def replayRecords (orders : ℕ → IterOrder × IterOrder) :
    ℕ → List LogRecord → Recovery → Recovery
  | _, [], state => state
  | i, r :: records, state =>
      replayRecords orders (i + 1) records (replayRecord (orders i) state r)

/-- The nodes of a restored graph, as translations of themselves. -/
def identityMap (g : Graph) : HashMap NodeId NodeId :=
  (g.nodes.filterMap id).foldl (fun m n => m.insert n.id n.id) ∅

/-- Restore a graph from a full backup and replay the log up to, and including, the target. -/
def restoreToPointInTime (z : Compressors) (orders : ℕ → IterOrder × IterOrder) (base wal : Bytes)
    (target : UInt64) : Except BackupError Graph := do
  let graph ← restore z base
  let records := (readAllForIncremental wal 0).1
  pure (replayRecords orders 0 (records.filter (·.timestamp ≤ target)) (graph, identityMap graph)).1

lemma replayRecords_append (orders : ℕ → IterOrder × IterOrder) (i : ℕ)
    (records records' : List LogRecord) (state : Recovery) :
    replayRecords orders i (records ++ records') state =
      replayRecords orders (i + records.length) records' (replayRecords orders i records state) := by
  induction records generalizing i state with
  | nil => rfl
  | cons r records ih =>
    rw [List.cons_append, replayRecords, replayRecords, ih, List.length_cons, Nat.add_right_comm,
      Nat.add_assoc]

end Backup

/-! ## Replaying into an empty graph -/

/-- A recovery and a replay apply a record alike. -/
lemma Stage.replayRecord {g g' : Graph} {scrambled scrambled' : List EdgeId} {state state' : Recovery}
    {orders : IterOrder × IterOrder} {r : LogRecord} (h : Stage g scrambled state)
    (happly : applyRecord orders.1 orders.2 state r = .ok state') (h' : Stage g' scrambled' state') :
    Stage g' scrambled' (Backup.replayRecord orders state r) := by
  obtain ⟨⟨π, hfollows⟩, htranslates⟩ := h
  obtain ⟨hfollows', htranslates'⟩ := h'
  have hnode : ∀ n, state.1.getNode n = g.getNode n := fun n => by
    rw [Graph.getNode, hfollows.nodes, Graph.getNode]
  unfold applyRecord at happly
  unfold Backup.replayRecord
  cases hpayload : r.payload with
  | createNode nodeId label =>
    simp only [hpayload] at happly
    obtain rfl := Except.ok.inj happly
    exact ⟨hfollows', htranslates'⟩
  | deleteNode nodeId =>
    simp only [hpayload] at happly
    -- Either way the id is its own translation, and the node is gone afterwards.
    have hstate : state' = ((state.1.deleteNode orders.1 orders.2 nodeId).1, state.2) := by
      cases hlookup : state.2.lookup nodeId with
      | some actual =>
        rw [hlookup] at happly
        rw [← htranslates.sound nodeId actual hlookup]
        exact (Except.ok.inj happly).symm
      | none =>
        rw [hlookup] at happly
        have hdead : state.1.getNode nodeId = none := by
          by_contra hlive
          rw [hnode] at hlive
          have hknown := htranslates.live nodeId (Option.isSome_iff_ne_none.mpr hlive)
          rw [hlookup] at hknown
          cases hknown
        rw [Graph.deleteNode_of_dead hdead]
        exact (Except.ok.inj happly).symm
    subst hstate
    simp only [htranslates.getD]
    refine ⟨hfollows', fun n m hm => ?_, fun n hn => ?_⟩
    · rw [HashMap.lookup_erase_ite] at hm
      split at hm
      · cases hm
      · exact htranslates'.sound n m hm
    · have hne : n ≠ nodeId := by
        rintro rfl
        obtain ⟨π', hπ⟩ := hfollows'
        have hgone := hfollows.valid'.getNode_deleteNode orders.1 orders.2 n n
        rw [if_pos rfl, Graph.getNode, hπ.nodes, ← Graph.getNode] at hgone
        rw [hgone] at hn
        cases hn
      rw [HashMap.lookup_erase_ite, if_neg hne]
      exact htranslates'.live n hn
  | createEdge edgeId fromNode toNode label =>
    simp only [hpayload] at happly
    split at happly
    · rename_i graph id hcreate
      obtain rfl := Except.ok.inj happly
      obtain ⟨hfrom, hto⟩ := Graph.live_of_createEdge_ok (congrArg Prod.snd hcreate)
      simp only [hfrom, hto, Bool.and_self, if_true, hcreate]
      exact ⟨hfollows', htranslates'⟩
    · cases happly
  | deleteEdge edgeId =>
    simp only [hpayload] at happly
    obtain rfl := Except.ok.inj happly
    exact ⟨hfollows', htranslates'⟩
  | setNodeProperty nodeId key value =>
    simp only [hpayload] at happly
    obtain rfl := Except.ok.inj happly
    exact ⟨hfollows', htranslates'⟩
  | setEdgeProperty edgeId key value =>
    simp only [hpayload] at happly
    obtain rfl := Except.ok.inj happly
    exact ⟨hfollows', htranslates'⟩
  | checkpoint lastLsn =>
    simp only [hpayload] at happly
    obtain rfl := Except.ok.inj happly
    exact ⟨hfollows', htranslates'⟩

namespace LoggedGraph

/-- Replaying the log so far into an empty graph reaches the same stage. -/
def ReplaysToStage (orders : ℕ → IterOrder × IterOrder) (s : LoggedGraph) : Prop :=
  Stage s.graph s.scrambled (Backup.replayRecords orders 0 s.log (.new, ∅))

lemma replaysToStage_start (orders : ℕ → IterOrder × IterOrder) : start.ReplaysToStage orders := by
  refine ⟨⟨1, Graph.follows_new⟩, by simp [Backup.replayRecords, start], ?_⟩
  simp [start, Graph.new, Graph.getNode]

lemma ReplaysToStage.step {orders' : ℕ → IterOrder × IterOrder} {s : LoggedGraph}
    (hs : s.ReplaysToStage orders') (orders : ℕ → IterOrder × IterOrder) {op : GraphOp × UInt64}
    (hop : s.Guard op) : (s.step orders op).ReplaysToStage orders' := by
  unfold ReplaysToStage
  rcases replaysStep hs orders (orders' s.log.length) hop with
    ⟨hlog, hnext⟩ | ⟨r, state', hlog, hrecord, hnext⟩
  · rwa [hlog]
  · rw [hlog, Backup.replayRecords_append, Nat.zero_add]
    exact Stage.replayRecord hs hrecord hnext

/-- The records that further operations log carry their time stamps. -/
lemma exists_log_eq (orders : ℕ → IterOrder × IterOrder) (s : LoggedGraph)
    (ops : List (GraphOp × UInt64)) :
    ∃ records, (ops.foldl (step orders) s).log = s.log ++ records ∧
      ∀ r ∈ records, ∃ op ∈ ops, r.timestamp = op.2 := by
  induction ops generalizing s with
  | nil => exact ⟨[], by simp, by simp⟩
  | cons op ops ih =>
    obtain ⟨records, hlog, hstamps⟩ := ih (s.step orders op)
    have hstep : (s.step orders op).log = s.log ∨
        ∃ r : LogRecord, r.timestamp = op.2 ∧ (s.step orders op).log = s.log ++ [r] := by
      unfold LoggedGraph.step
      rcases op.1.perform (orders s.log.length) s.graph with ⟨graph, _ | payload⟩
      · exact .inl rfl
      · exact .inr ⟨_, rfl, rfl⟩
    rw [List.foldl_cons, hlog]
    have hrest : ∀ r ∈ records, ∃ op' ∈ op :: ops, r.timestamp = op'.2 := by
      intro r hr
      obtain ⟨op', hop', hstamp⟩ := hstamps r hr
      exact ⟨op', List.mem_cons_of_mem _ hop', hstamp⟩
    rcases hstep with hsame | ⟨r, hr, happend⟩
    · exact ⟨records, by rw [hsame], hrest⟩
    · refine ⟨r :: records, by rw [happend]; simp, ?_⟩
      rw [List.forall_mem_cons]
      exact ⟨⟨op, List.mem_cons_self, hr⟩, hrest⟩

end LoggedGraph

/-! ## Replaying beside the backup -/

/-- The nodes `base` of the backup are live in the replay, and the live nodes of the run have
translations apart from them and from each other. -/
structure Beside (base : Set NodeId) (g : Graph) (state : Recovery) : Prop where
  valid : state.1.Valid
  kept : ∀ y ∈ base, (state.1.getNode y).isSome
  live : ∀ x, (g.getNode x).isSome →
    ∃ y, state.2.lookup x = some y ∧ (state.1.getNode y).isSome ∧ y ∉ base
  inj : ∀ x x' y, (g.getNode x).isSome → (g.getNode x').isSome → state.2.lookup x = some y →
    state.2.lookup x' = some y → x = x'

section Beside

variable {base : Set NodeId} {g : Graph} {state : Recovery} (h : Beside base g state)

include h

/-- A change that touches neither the live nodes of the run nor those of the replay. -/
lemma Beside.mono {g' f' : Graph} (hvalid : f'.Valid)
    (hlive : ∀ x, (g'.getNode x).isSome → (g.getNode x).isSome)
    (hlive' : ∀ y, (state.1.getNode y).isSome → (f'.getNode y).isSome) :
    Beside base g' (f', state.2) where
  valid := hvalid
  kept y hy := hlive' y (h.kept y hy)
  live x hx := by
    obtain ⟨y, hlookup, hy, hbase⟩ := h.live x (hlive x hx)
    exact ⟨y, hlookup, hlive' y hy, hbase⟩
  inj x x' y hx hx' := h.inj x x' y (hlive x hx) (hlive x' hx')

lemma Beside.createNode (hg : g.Valid) (hlen : g.nodes.length < 2 ^ 64)
    (hlen' : state.1.nodes.length < 2 ^ 64) (label : String) :
    Beside base (g.createNode label).1
      ((state.1.createNode label).1,
        state.2.insert (g.createNode label).2 (state.1.createNode label).2) := by
  have hcreate := hg.createsNode hlen (if label.isEmpty then [] else [label])
  have hcreate' := h.valid.createsNode hlen' (if label.isEmpty then [] else [label])
  change Graph.CreatesNode g (g.createNode label).1 (g.createNode label).2 _ at hcreate
  change Graph.CreatesNode state.1 (state.1.createNode label).1 (state.1.createNode label).2 _ at hcreate'
  set id := (g.createNode label).2
  set id' := (state.1.createNode label).2
  have hold : ∀ x, x ≠ id → ((g.createNode label).1.getNode x).isSome → (g.getNode x).isSome := by
    intro x hx hlive
    rwa [hcreate.getNode, if_neg hx] at hlive
  have hkeep : ∀ y, (state.1.getNode y).isSome → ((state.1.createNode label).1.getNode y).isSome := by
    intro y hy
    rw [hcreate'.getNode]
    split
    · rfl
    · exact hy
  have hfresh : ∀ y, (state.1.getNode y).isSome → y ≠ id' := by
    rintro y hy rfl
    rw [hcreate'.dead] at hy
    cases hy
  refine ⟨hcreate'.valid h.valid, fun y hy => hkeep y (h.kept y hy), fun x hx => ?_,
    fun x x' y hx hx' hy hy' => ?_⟩
  · simp only [HashMap.lookup_insert_ite]
    by_cases hid : x = id
    · refine ⟨id', by rw [if_pos hid], ?_, fun hbase => hfresh id' (h.kept id' hbase) rfl⟩
      rw [hcreate'.getNode, if_pos rfl]
      rfl
    · obtain ⟨y, hlookup, hy, hbase⟩ := h.live x (hold x hid hx)
      exact ⟨y, by rw [if_neg hid, hlookup], hkeep y hy, hbase⟩
  · simp only [HashMap.lookup_insert_ite] at hy hy'
    -- An old translation is live already, so it is not the new id.
    have hnew : ∀ x, x ≠ id → ((g.createNode label).1.getNode x).isSome →
        state.2.lookup x ≠ some id' := by
      intro x hne hlive hlookup
      obtain ⟨y, hlookup', hy, -⟩ := h.live x (hold x hne hlive)
      rw [hlookup'] at hlookup
      exact hfresh y hy (Option.some.inj hlookup)
    by_cases hid : x = id
    · by_cases hid' : x' = id
      · rw [hid, hid']
      · rw [if_pos hid] at hy
        rw [if_neg hid', ← hy] at hy'
        exact absurd hy' (hnew x' hid' hx')
    · by_cases hid' : x' = id
      · rw [if_pos hid'] at hy'
        rw [if_neg hid, ← hy'] at hy
        exact absurd hy (hnew x hid hx)
      · rw [if_neg hid] at hy
        rw [if_neg hid'] at hy'
        exact h.inj x x' y (hold x hid hx) (hold x' hid' hx') hy hy'

lemma Beside.deleteNode (hg : g.Valid) (orders orders' : IterOrder × IterOrder) {id : NodeId}
    (hid : (g.getNode id).isSome) :
    Beside base (g.deleteNode orders.1 orders.2 id).1
      ((state.1.deleteNode orders'.1 orders'.2 ((state.2.lookup id).getD id)).1, state.2.erase id) := by
  obtain ⟨actual, hactual, -, hbase⟩ := h.live id hid
  rw [hactual, Option.getD_some]
  have hold : ∀ x, ((g.deleteNode orders.1 orders.2 id).1.getNode x).isSome →
      x ≠ id ∧ (g.getNode x).isSome := by
    intro x hx
    rw [hg.getNode_deleteNode] at hx
    split at hx
    · cases hx
    · next hne => exact ⟨hne, hx⟩
  have hkeep : ∀ y, y ≠ actual → (state.1.getNode y).isSome →
      ((state.1.deleteNode orders'.1 orders'.2 actual).1.getNode y).isSome := by
    intro y hne hy
    rwa [h.valid.getNode_deleteNode, if_neg hne]
  refine ⟨h.valid.deleteNode _ _ _, fun y hy => ?_, fun x hx => ?_, fun x x' y hx hx' hy hy' => ?_⟩
  · exact hkeep y (fun heq => hbase (heq ▸ hy)) (h.kept y hy)
  · obtain ⟨hne, hlive⟩ := hold x hx
    obtain ⟨y, hlookup, hy, hapart⟩ := h.live x hlive
    refine ⟨y, by rw [HashMap.lookup_erase_ite, if_neg hne, hlookup], hkeep y ?_ hy, hapart⟩
    rintro rfl
    exact hne (h.inj x id y hlive hid hlookup hactual)
  · obtain ⟨hne, hlive⟩ := hold x hx
    obtain ⟨hne', hlive'⟩ := hold x' hx'
    simp only [HashMap.lookup_erase_ite, if_neg hne] at hy
    simp only [HashMap.lookup_erase_ite, if_neg hne'] at hy'
    exact h.inj x x' y hlive hlive' hy hy'

/-- The replay is a copy of the run only when the backup has no nodes. -/
lemma Beside.base_eq_empty (hcopy : g.IsCopy state.1) : base = ∅ := by
  obtain ⟨ν, ε, hcopies⟩ := hcopy
  by_contra hne
  obtain ⟨b, hb⟩ := Set.nonempty_iff_ne_empty.mpr hne
  have hinto : ∀ x ∈ {n | (g.getNode n).isSome},
      (state.2.lookup x).getD 0 ∈ {n | (state.1.getNode n).isSome} \ base := by
    intro x hx
    obtain ⟨y, hlookup, hy, hbase⟩ := h.live x hx
    rw [hlookup]
    exact ⟨hy, hbase⟩
  have hinj : Set.InjOn (fun x => (state.2.lookup x).getD 0) {n | (g.getNode n).isSome} := by
    intro x hx x' hx' heq
    obtain ⟨y, hlookup, -, -⟩ := h.live x hx
    obtain ⟨y', hlookup', -, -⟩ := h.live x' hx'
    simp only [hlookup, hlookup', Option.getD_some] at heq
    exact h.inj x x' y hx hx' hlookup (by rw [hlookup', heq])
  have hle := Set.ncard_le_ncard_of_injOn _ hinto hinj
  have hlt : ({n | (state.1.getNode n).isSome} \ base).ncard <
      {n | (state.1.getNode n).isSome}.ncard := by
    refine Set.ncard_lt_ncard ⟨Set.sdiff_subset, fun hsub => ?_⟩
    exact (hsub (h.kept b hb)).2 hb
  have hsame : {n | (state.1.getNode n).isSome}.ncard = {n | (g.getNode n).isSome}.ncard := by
    rw [← hcopies.nodes.image_eq, Set.InjOn.ncard_image hcopies.nodes.injOn]
  omega

end Beside

namespace LoggedGraph

/-- An operation that deletes a node deletes a live one. -/
def DeletesLive (s : LoggedGraph) : GraphOp → Prop
  | .deleteNode id => (s.graph.getNode id).isSome
  | _ => True

instance (s : LoggedGraph) : ∀ op, Decidable (s.DeletesLive op)
  | .deleteNode id => inferInstanceAs (Decidable ((s.graph.getNode id).isSome = true))
  | .createNode _ | .createEdge _ _ _ | .deleteEdge _ | .setNodeProperty _ _ _
  | .setEdgeProperty _ _ _ => .isTrue trivial

/-- What the operations of a history must respect besides the guard of a recovery: the time stamps
are positive, nodes are deleted while they are live, and the log stays short. -/
def Timely (s : LoggedGraph) (op : GraphOp × UInt64) : Prop :=
  s.Guard op ∧ s.DeletesLive op.1 ∧ 0 < op.2 ∧ s.log.length < 2 ^ 62

instance (s : LoggedGraph) (op : GraphOp × UInt64) : Decidable (s.Timely op) :=
  inferInstanceAs (Decidable (_ ∧ _))

/-- The graph is well formed and not larger than its log. -/
structure Sized (s : LoggedGraph) : Prop where
  inv : s.graph.Inv
  nodes : s.graph.nodes.length ≤ s.log.length
  edges : s.graph.edges.length ≤ s.log.length

lemma sized_start : start.Sized := ⟨Graph.inv_new, Nat.zero_le _, Nat.zero_le _⟩

/-- An operation takes at most one new slot, and none when it is not logged. -/
lemma length_perform {g : Graph} (hg : g.Inv) (orders : IterOrder × IterOrder) (op : GraphOp) :
    ((op.perform orders g).2 = none → (op.perform orders g).1 = g) ∧
    (op.perform orders g).1.nodes.length ≤ g.nodes.length + 1 ∧
    (op.perform orders g).1.edges.length ≤ g.edges.length + 1 := by
  cases op with
  | createNode label =>
    have hcreate := hg.valid.createsNode hg.fits.nodes_lt (if label.isEmpty then [] else [label])
    refine ⟨fun hnone => (by cases hnone), hcreate.nodes_length.2, ?_⟩
    change (g.createNodeWithLabels _).1.edges.length ≤ _
    rw [hcreate.edges]
    exact Nat.le_succ _
  | deleteNode id =>
    refine ⟨fun hnone => (by cases hnone), ?_, ?_⟩
    · exact (hg.valid.nodes_length_deleteNode _ _ _).trans_le (Nat.le_succ _)
    · exact (hg.valid.edges_length_deleteNode _ _ _).trans_le (Nat.le_succ _)
  | createEdge fromNode toNode label =>
    have hnodes := Graph.nodes_createEdge g fromNode toNode label
    simp only [GraphOp.perform]
    rcases hcreate : g.createEdge fromNode toNode label with ⟨g', e | id⟩
    · rw [Graph.eq_of_createEdge_error hcreate]
      exact ⟨fun _ => rfl, Nat.le_succ _, Nat.le_succ _⟩
    · rw [hcreate] at hnodes
      refine ⟨fun hnone => (by cases hnone), by rw [hnodes]; exact Nat.le_succ _, ?_⟩
      have hlive := Graph.live_of_createEdge_ok (congrArg Prod.snd hcreate)
      have hedges := (hg.valid.createsEdge hg.fits.edges_lt hlive.1 hlive.2 label).2.edges_length
      rw [hcreate] at hedges
      rw [hedges]
      split <;> omega
  | deleteEdge id =>
    refine ⟨fun hnone => (by cases hnone), ?_, ?_⟩
    · simp only [GraphOp.perform, Graph.nodes_deleteEdge]
      exact Nat.le_succ _
    · exact (Graph.edges_length_deleteEdge g id).trans_le (Nat.le_succ _)
  | setNodeProperty id key value =>
    refine ⟨fun hnone => (by cases hnone), ?_, Nat.le_succ _⟩
    simp [GraphOp.perform, Graph.setNodeProperty]
  | setEdgeProperty id key value =>
    refine ⟨fun hnone => (by cases hnone), Nat.le_succ _, ?_⟩
    simp [GraphOp.perform, Graph.setEdgeProperty]

lemma Sized.step {s : LoggedGraph} (hs : s.Sized) (orders : ℕ → IterOrder × IterOrder)
    (op : GraphOp × UInt64) (hlog : s.log.length < 2 ^ 62) : (s.step orders op).Sized := by
  obtain ⟨hnone, hnodes, hedges⟩ := length_perform hs.inv (orders s.log.length) op.1
  have hsize := hs.nodes
  have hsize' := hs.edges
  have hfits : ((op.1.perform (orders s.log.length) s.graph).1).Fits := by
    constructor <;> unfold Graph.vecLimit <;> omega
  have hinv := hs.inv.perform (orders s.log.length) op.1 hfits
  unfold LoggedGraph.step
  rcases hperform : op.1.perform (orders s.log.length) s.graph with ⟨graph, _ | payload⟩
  · rw [hperform] at hnone hinv
    obtain rfl : graph = s.graph := hnone rfl
    exact ⟨hinv, hsize, hsize'⟩
  · rw [hperform] at hinv hnodes hedges
    refine ⟨hinv, ?_, ?_⟩
    · refine hnodes.trans ?_
      simp only [append, List.length_append, List.length_singleton]
      omega
    · refine hedges.trans ?_
      simp only [append, List.length_append, List.length_singleton]
      omega

/-- A timely history is not larger than its log, which stays short. -/
structure Short (s : LoggedGraph) : Prop extends Sized s where
  log : s.log.length ≤ 2 ^ 62

lemma Short.step {s : LoggedGraph} (hs : s.Short) (orders : ℕ → IterOrder × IterOrder)
    {op : GraphOp × UInt64} (hop : s.Timely op) : (s.step orders op).Short := by
  have hlog := hop.2.2.2
  refine ⟨hs.toSized.step orders op hlog, ?_⟩
  unfold LoggedGraph.step
  rcases op.1.perform (orders s.log.length) s.graph with ⟨graph, _ | payload⟩
  · exact hs.log
  · simp only [append, List.length_append, List.length_singleton]
    omega

lemma short_run (orders : ℕ → IterOrder × IterOrder) {ops : List (GraphOp × UInt64)}
    (h : Along (LoggedGraph.step orders) Timely start ops) : (run orders ops).Short :=
  inv_foldl (fun _ _ hs hop => hs.step orders hop) ⟨sized_start, Nat.zero_le _⟩ h

/-- A graph has at most `k` more slots than another one. -/
def GrowsBy (k : ℕ) (f f' : Graph) : Prop :=
  f'.nodes.length ≤ f.nodes.length + k ∧ f'.edges.length ≤ f.edges.length + k

/-- The replay of the log so far on the restored graph `f`, beside the nodes of `f`. -/
structure ReplaysBeside (orders : ℕ → IterOrder × IterOrder) (f : Graph) (s : LoggedGraph) : Prop where
  beside : Beside {n | (f.getNode n).isSome} s.graph
    (Backup.replayRecords orders 0 s.log (f, Backup.identityMap f))
  grows : GrowsBy s.log.length f
    (Backup.replayRecords orders 0 s.log (f, Backup.identityMap f)).1

lemma replaysBeside_start (orders : ℕ → IterOrder × IterOrder) {f : Graph} (hf : f.Valid) :
    start.ReplaysBeside orders f := by
  refine ⟨⟨hf, fun y hy => hy, ?_, ?_⟩, Nat.le_refl _, Nat.le_refl _⟩
  · simp [start, Graph.new, Graph.getNode]
  · simp [start, Graph.new, Graph.getNode]

/-- What one operation leads to in the replay: nothing is logged, or a record is replayed beside the
backup. -/
def ReplaysBesideStep (orders : IterOrder × IterOrder) (base : Set NodeId) (s s' : LoggedGraph)
    (state : Recovery) : Prop :=
  s'.log = s.log ∧ Beside base s'.graph state ∨
  ∃ r, s'.log = s.log ++ [r] ∧ Beside base s'.graph (Backup.replayRecord orders state r) ∧
    GrowsBy 1 state.1 (Backup.replayRecord orders state r).1

lemma replaysBesideStep {base : Set NodeId} {s : LoggedGraph} {state : Recovery} (hs : s.Sized)
    (h : Beside base s.graph state) (hlen : state.1.nodes.length < 2 ^ 64)
    (hlen' : state.1.edges.length < 2 ^ 64) (orders : ℕ → IterOrder × IterOrder)
    (orders' : IterOrder × IterOrder) {op : GraphOp × UInt64} (hop : s.DeletesLive op.1) :
    ReplaysBesideStep orders' base s (s.step orders op) state := by
  obtain ⟨op, timestamp⟩ := op
  have hvalid := hs.inv.valid
  cases op with
  | createNode label =>
    refine .inr ⟨_, rfl, h.createNode hvalid hs.inv.fits.nodes_lt hlen label, ?_, ?_⟩
    · exact (h.valid.createsNode hlen _).nodes_length.2
    · change (state.1.createNodeWithLabels _).1.edges.length ≤ _
      rw [(h.valid.createsNode hlen _).edges]
      exact Nat.le_succ _
  | deleteNode id =>
    refine .inr ⟨_, rfl, h.deleteNode hvalid (orders s.log.length) orders' hop, ?_, ?_⟩
    · exact (h.valid.nodes_length_deleteNode _ _ _).trans_le (Nat.le_succ _)
    · exact (h.valid.edges_length_deleteNode _ _ _).trans_le (Nat.le_succ _)
  | createEdge fromNode toNode label =>
    have hnodes := Graph.nodes_createEdge s.graph fromNode toNode label
    simp only [LoggedGraph.step, GraphOp.perform]
    rcases hcreate : s.graph.createEdge fromNode toNode label with ⟨g, _ | id⟩
    · rw [Graph.eq_of_createEdge_error hcreate]
      exact .inl ⟨rfl, h⟩
    · rw [hcreate] at hnodes
      have hlive : ∀ x, (g.getNode x).isSome → (s.graph.getNode x).isSome := by
        intro x hx
        rwa [Graph.getNode, hnodes] at hx
      refine .inr ⟨_, rfl, ?_⟩
      simp only [Backup.replayRecord]
      split
      · rename_i hends
        rw [Bool.and_eq_true] at hends
        have hcreates := (h.valid.createsEdge hlen' hends.1 hends.2 label).2
        refine ⟨h.mono (hcreates.valid h.valid rfl hends.1 hends.2) hlive fun y hy => ?_, ?_, ?_⟩
        · rwa [Graph.getNode, hcreates.nodes]
        · rw [hcreates.nodes]
          exact Nat.le_succ _
        · rw [hcreates.edges_length]
          split <;> omega
      · exact ⟨h.mono h.valid hlive fun y hy => hy, Nat.le_succ _, Nat.le_succ _⟩
  | deleteEdge id =>
    refine .inr ⟨_, rfl, h.mono (h.valid.deleteEdge id) (fun x hx => ?_) fun y hy => ?_, ?_, ?_⟩
    · change ((s.graph.deleteEdge id).1.getNode x).isSome at hx
      rwa [Graph.getNode, Graph.nodes_deleteEdge] at hx
    · rwa [Graph.getNode, Graph.nodes_deleteEdge]
    · simp only [Backup.replayRecord, Graph.nodes_deleteEdge]
      exact Nat.le_succ _
    · exact (Graph.edges_length_deleteEdge state.1 id).trans_le (Nat.le_succ _)
  | setNodeProperty id key value =>
    have hsome : ∀ (g : Graph) (n x : NodeId),
        ((g.setNodeProperty n key value).getNode x).isSome = (g.getNode x).isSome := by
      intro g n x
      rw [Graph.getNode_setNodeProperty]
      split <;> simp
    refine .inr ⟨_, rfl, h.mono (h.valid.setNodeProperty _ key value) (fun x hx => ?_)
      fun y hy => ?_, ?_, Nat.le_succ _⟩
    · exact hsome s.graph id x ▸ hx
    · exact (hsome state.1 _ y).symm ▸ hy
    · simp [Backup.replayRecord, Graph.setNodeProperty]
  | setEdgeProperty id key value =>
    refine .inr ⟨_, rfl, h.mono (h.valid.setEdgeProperty id key value) (fun x hx => hx)
      fun y hy => hy, Nat.le_succ _, ?_⟩
    simp [Backup.replayRecord, Graph.setEdgeProperty]

/-- Every operation of a timely history is replayed beside the backup. -/
lemma ReplaysBeside.step {orders' : ℕ → IterOrder × IterOrder} {f : Graph} {s : LoggedGraph}
    (h : s.ReplaysBeside orders' f) (hs : s.Sized) (hf : f.nodes.length ≤ 2 ^ 62)
    (hf' : f.edges.length ≤ 2 ^ 62) (orders : ℕ → IterOrder × IterOrder) {op : GraphOp × UInt64}
    (hop : s.Timely op) : (s.step orders op).ReplaysBeside orders' f := by
  obtain ⟨-, hlive, -, hlog⟩ := hop
  obtain ⟨hbeside, hnodes, hedges⟩ := h
  have hstep := replaysBesideStep hs hbeside (by omega) (by omega) orders (orders' s.log.length) hlive
  rcases hstep with ⟨hsame, hnext⟩ | ⟨r, happend, hnext, hnodes', hedges'⟩
  · refine ⟨?_, ?_⟩
    · rwa [hsame]
    · rw [hsame]
      exact ⟨hnodes, hedges⟩
  · have hreplay : Backup.replayRecords orders' 0 (s.step orders op).log (f, Backup.identityMap f) =
        Backup.replayRecord (orders' s.log.length)
          (Backup.replayRecords orders' 0 s.log (f, Backup.identityMap f)) r := by
      rw [happend, Backup.replayRecords_append, Nat.zero_add]
      rfl
    refine ⟨hreplay ▸ hnext, ?_⟩
    rw [hreplay, happend, List.length_append, List.length_singleton]
    constructor <;> omega

lemma replaysBeside_run (orders orders' : ℕ → IterOrder × IterOrder) {f : Graph} (hf : f.Valid)
    (hnodes : f.nodes.length ≤ 2 ^ 62) (hedges : f.edges.length ≤ 2 ^ 62)
    {ops : List (GraphOp × UInt64)} (h : Along (LoggedGraph.step orders) Timely start ops) :
    (run orders ops).ReplaysBeside orders' f := by
  have hstep : ∀ s op, ReplaysBeside orders' f s ∧ s.Short → s.Timely op →
      ReplaysBeside orders' f (s.step orders op) ∧ (s.step orders op).Short := by
    rintro s op ⟨hs, hshort⟩ hop
    exact ⟨hs.step hshort.toSized hnodes hedges orders hop, hshort.step orders hop⟩
  have hboth := inv_foldl hstep ⟨replaysBeside_start orders' hf, sized_start, Nat.zero_le _⟩ h
  exact hboth.1

end LoggedGraph

/-! ## Restoring -/

/-- A backup whose restored graph has no nodes has none. -/
lemma Graph.Rebuilds.nodeCount_eq_zero {g f : Graph} (hf : g.Rebuilds f) (hg : g.Inv)
    (hempty : {n | (f.getNode n).isSome} = ∅) : g.nodeCount = 0 := by
  rw [hg.nodeCount, List.countP_eq_zero]
  intro o ho hsome
  obtain ⟨a, rfl⟩ := Option.isSome_iff_exists.mp hsome
  have hmem : a ∈ g.nodes.filterMap id := List.mem_filterMap.mpr ⟨some a, ho, rfl⟩
  have hget : g.getNode a.id = some a := (mem_slots hg.fits.nodes_lt hg.node_id a).mp hmem
  obtain ⟨b, hb, -⟩ := hf.node a.id a hget
  have hlive : g.nodeRank a.id ∈ {n | (f.getNode n).isSome} := by simp [hb]
  rw [hempty] at hlive
  exact hlive

lemma Graph.Isomorphic.isCopy {g g' : Graph} (h : g.Isomorphic g') : g.IsCopy g' := by
  obtain ⟨ν, ε, hiso⟩ := h
  refine ⟨ν, ε, hiso.nodes, hiso.edges, fun n a ha => ?_, fun e a ha => ?_⟩
  · obtain ⟨b, hb, hlabels, hprops⟩ := hiso.node n a ha
    exact ⟨b, hb, hlabels, fun key => by rw [Node.getProperty, hprops, Node.getProperty]⟩
  · obtain ⟨b, hb, hlabel, hfrom, hto, hprops⟩ := hiso.edge e a ha
    exact ⟨b, hb, ⟨hlabel, fun key => by rw [Edge.getProperty, hprops, Edge.getProperty]⟩, hfrom, hto⟩

/-- A graph without nodes is rebuilt as the empty graph. -/
lemma Graph.Inv.rebuild_of_nodeCount {g : Graph} (hg : g.Inv) (hcount : g.nodeCount = 0) :
    Backup.rebuild g = .ok .new := by
  have hnodes : g.nodes.filterMap id = [] := by
    rw [← List.length_eq_zero_iff, Slots.length_filterMap_id, ← hg.nodeCount, hcount]
  have hedges : g.edges.filterMap id = [] := by
    rw [List.eq_nil_iff_forall_not_mem]
    intro e he
    have hedge : g.getEdge e.id = some e := (mem_slots hg.fits.edges_lt hg.valid.edge_id e).mp he
    obtain ⟨a, ha⟩ := Option.isSome_iff_exists.mp (hg.valid.endpoints e.id e hedge).1
    have hmem : a ∈ g.nodes.filterMap id := Slots.mem_filterMap_id.mpr ⟨_, ha⟩
    rw [hnodes] at hmem
    cases hmem
  rw [Backup.rebuild, hnodes, hedges]
  rfl

/-- The operations up to a time come before the others. -/
lemma exists_split_timestamp {ops : List (GraphOp × UInt64)} (hsorted : ops.Pairwise (·.2 ≤ ·.2))
    (target : UInt64) : ∃ later, ops = ops.filter (·.2 ≤ target) ++ later ∧
      ∀ op ∈ later, target < op.2 := by
  induction ops with
  | nil => exact ⟨[], rfl, by simp⟩
  | cons op ops ih =>
    obtain ⟨hop, hsorted⟩ := List.pairwise_cons.mp hsorted
    by_cases hle : op.2 ≤ target
    · obtain ⟨later, heq, hlater⟩ := ih hsorted
      refine ⟨later, ?_, hlater⟩
      rw [List.filter_cons_of_pos (by simpa using hle), List.cons_append, ← heq]
    · have hgt : ∀ op' ∈ op :: ops, target < op'.2 := by
        rw [List.forall_mem_cons]
        refine ⟨UInt64.not_le.mp hle, fun op' hop' => ?_⟩
        exact UInt64.lt_of_lt_of_le (UInt64.not_le.mp hle) (hop op' hop')
      refine ⟨op :: ops, ?_, hgt⟩
      rw [List.filter_eq_nil_iff.mpr fun op' hop' => by simpa using hgt op' hop', List.nil_append]

namespace LoggedGraph

/-- The replayed records are those of the run up to the target. -/
lemma readAllForIncremental_file {orders : ℕ → IterOrder × IterOrder}
    {ops : List (GraphOp × UInt64)} (hwritten : (run orders ops).LogWritten)
    (hsorted : ops.Pairwise (·.2 ≤ ·.2)) (hpos : ∀ op ∈ ops, 0 < op.2) (target : UInt64) :
    (readAllForIncremental (run orders ops).file 0).1.filter (·.timestamp ≤ target) =
      (run orders (ops.filter (·.2 ≤ target))).log := by
  obtain ⟨later, hsplit, hlater⟩ := exists_split_timestamp hsorted target
  obtain ⟨early, hearly, hstamps⟩ := exists_log_eq orders start (ops.filter (·.2 ≤ target))
  obtain ⟨rest, hrest, hstamps'⟩ :=
    exists_log_eq orders (run orders (ops.filter (·.2 ≤ target))) later
  change (run orders (ops.filter (·.2 ≤ target))).log = [] ++ early at hearly
  rw [List.nil_append] at hearly
  have hlog : (run orders ops).log = early ++ rest := by
    rw [← hearly, ← hrest]
    conv_lhs => rw [hsplit]
    rw [run, List.foldl_append]
    rfl
  have hrecordPos : ∀ r ∈ early ++ rest, 0 < r.timestamp := by
    intro r hr
    rcases List.mem_append.mp hr with hr | hr
    · obtain ⟨op, hop, heq⟩ := hstamps r hr
      exact heq ▸ hpos op (List.mem_of_mem_filter hop)
    · obtain ⟨op, hop, heq⟩ := hstamps' r hr
      exact heq ▸ hpos op (hsplit ▸ List.mem_append_right _ hop)
  have hall : (early ++ rest).filter (0 < ·.timestamp) = early ++ rest :=
    List.filter_eq_self.mpr fun r hr => by simpa using hrecordPos r hr
  have hkeep : early.filter (·.timestamp ≤ target) = early := by
    refine List.filter_eq_self.mpr fun r hr => ?_
    obtain ⟨op, hop, heq⟩ := hstamps r hr
    rw [heq]
    exact (List.mem_filter.mp hop).2
  have hdrop : rest.filter (·.timestamp ≤ target) = [] := by
    refine List.filter_eq_nil_iff.mpr fun r hr => ?_
    obtain ⟨op, hop, heq⟩ := hstamps' r hr
    rw [heq]
    simpa using hlater op hop
  rw [readAllForIncremental, hwritten.scanFile, hlog, hearly]
  simp only
  rw [hall, List.filter_append, hkeep, hdrop, List.append_nil]

end LoggedGraph

open LoggedGraph in
/-- **Point-in-time recovery is exact for a backup without nodes, and only then.**  A history with
non-decreasing time stamps, a full backup after the operations `before`, and a target: when all
operations are timely, restoring succeeds with a copy of the graph after the operations up to the
target exactly when the backup has no nodes. -/
theorem restoreToPointInTime_iff (z : Compressors) (orders orders' : ℕ → IterOrder × IterOrder)
    (before after : List (GraphOp × UInt64)) (t₀ target : UInt64) (options : BackupOptions)
    (htimely : Along (step orders) Timely start (before ++ after))
    (hsorted : (before ++ after).Pairwise (·.2 ≤ ·.2))
    (hstore : Backup.Storable (run orders before).graph) (hoptions : ShortString options.description) :
    (∃ g, Backup.restoreToPointInTime z orders'
          (Backup.create z (run orders before).graph t₀ options).2
          (run orders (before ++ after)).file target = .ok g ∧
        (run orders ((before ++ after).filter (·.2 ≤ target))).graph.IsCopy g) ↔
      (run orders before).graph.nodeCount = 0 := by
  set ops := before ++ after with hops
  have hguard : Along (step orders) Guard start ops := Along.mono (fun _ _ h => h.1) htimely
  have hpos : ∀ op ∈ ops, 0 < op.2 := Along.forall_mem (fun _ _ h => h.2.2.1) htimely
  have hwritten : (run orders ops).LogWritten :=
    inv_foldl (fun _ _ hs hop => hs.step orders hop) logWritten_start hguard
  have hrecords := readAllForIncremental_file hwritten hsorted hpos target
  -- The backup is read back.
  have hsized := short_run orders (along_append.mp htimely).1
  obtain ⟨f, hrebuild, hf⟩ := hsized.inv.rebuilds
  have hrestore := Backup.restore_create z hsized.inv hstore hrebuild t₀ hoptions
  have hresult : Backup.restoreToPointInTime z orders'
      (Backup.create z (run orders before).graph t₀ options).2 (run orders ops).file target =
      .ok (Backup.replayRecords orders' 0 (run orders (ops.filter (·.2 ≤ target))).log
        (f, Backup.identityMap f)).1 := by
    rw [Backup.restoreToPointInTime, hrestore, ← hrecords]
    rfl
  obtain ⟨later, hsplit, -⟩ := exists_split_timestamp hsorted target
  have hupto : Along (step orders) Timely start (ops.filter (·.2 ≤ target)) := by
    rw [hsplit] at htimely
    exact (along_append.mp htimely).1
  constructor
  · rintro ⟨g, hg, hcopy⟩
    rw [hresult] at hg
    obtain rfl := Except.ok.inj hg
    have hnodes : f.nodes.length ≤ 2 ^ 62 := by
      rw [hf.nodes_length, hsized.inv.nodeCount]
      exact (List.countP_le_length.trans hsized.nodes).trans hsized.log
    have hedges : f.edges.length ≤ 2 ^ 62 := by
      rw [hf.edges_length, hsized.inv.edgeCount]
      exact (List.countP_le_length.trans hsized.edges).trans hsized.log
    have hbeside := replaysBeside_run orders orders' hf.valid hnodes hedges hupto
    exact hf.nodeCount_eq_zero hsized.inv (hbeside.beside.base_eq_empty hcopy)
  · intro hcount
    obtain rfl : f = .new := by
      have hnew := hsized.inv.rebuild_of_nodeCount hcount
      rw [hrebuild] at hnew
      exact Except.ok.inj hnew
    have hstage : (run orders (ops.filter (·.2 ≤ target))).ReplaysToStage orders' :=
      inv_foldl (fun _ _ hs hop => hs.step orders hop) (replaysToStage_start orders')
        (Along.mono (fun _ _ h => h.1) hupto)
    obtain ⟨π, hfollows⟩ := hstage.follows
    exact ⟨_, hresult, hfollows.isomorphic.isCopy⟩

/-- The operations before a backup that has no nodes, and those after it. -/
def sampleHistory : List (GraphOp × UInt64) × List (GraphOp × UInt64) :=
  ([(.createNode "P", 1), (.setNodeProperty 0 "x" (.int 1), 2), (.deleteNode 0, 3)],
    [(.createNode "Q", 4), (.createNode "R", 4), (.createEdge 0 1 "A", 5),
      (.setEdgeProperty 0 "w" (.int 2), 6), (.deleteNode 1, 9)])

open LoggedGraph in
theorem restoreToPointInTime_sampleHistory :
    ∃ g, Backup.restoreToPointInTime .framed (fun _ => (.listed, .listed))
        (Backup.create .framed (run (fun _ => (.listed, .listed)) sampleHistory.1).graph 3
          ⟨.gzip, "sample"⟩).2
        (run (fun _ => (.listed, .listed)) (sampleHistory.1 ++ sampleHistory.2)).file 6 = .ok g ∧
      (run (fun _ => (.listed, .listed))
        ((sampleHistory.1 ++ sampleHistory.2).filter (·.2 ≤ 6))).graph.IsCopy g := by
  have hnodes : (run (fun _ => (.listed, .listed)) sampleHistory.1).graph.nodes = [none] := by rfl
  have hedges : (run (fun _ => (.listed, .listed)) sampleHistory.1).graph.edges = [] := by rfl
  refine (restoreToPointInTime_iff .framed (fun _ => (.listed, .listed))
    (fun _ => (.listed, .listed)) sampleHistory.1 sampleHistory.2 3 6 ⟨.gzip, "sample"⟩
    (by decide +kernel) (by decide +kernel) ⟨?_, ?_⟩ (by decide +kernel)).mpr (by decide +kernel)
  · intro id n hn
    rw [Graph.getNode, hnodes] at hn
    exact absurd (hn.symm.trans (Slots.getD_replicate 1 id.toNat none)) (by simp)
  · intro id e he
    rw [Graph.getEdge, hedges] at he
    cases he

/-- A history of one operation. -/
def oneNodeHistory : List (GraphOp × UInt64) := [(.createNode "A", 1)]

open LoggedGraph in
/-- A node created before the backup is there twice. -/
theorem restoreToPointInTime_duplicates_node :
    ¬ ∀ (z : Compressors) (orders orders' : ℕ → IterOrder × IterOrder)
      (before after : List (GraphOp × UInt64)) (t₀ target : UInt64) (options : BackupOptions),
      (before ++ after).Pairwise (·.2 ≤ ·.2) → (∀ op ∈ before, op.2 ≤ t₀) →
      (∀ op ∈ after, t₀ ≤ op.2) → t₀ ≤ target →
      ∃ g, Backup.restoreToPointInTime z orders'
          (Backup.create z (run orders before).graph t₀ options).2
          (run orders (before ++ after)).file target = .ok g ∧
        (run orders ((before ++ after).filter (·.2 ≤ target))).graph.IsCopy g := by
  intro h
  obtain ⟨g, hg, ν, ε, hcopy⟩ := h .framed (fun _ => (.listed, .listed))
    (fun _ => (.listed, .listed)) oneNodeHistory [] 1 1 ⟨.none, ""⟩ (by decide +kernel)
    (by decide +kernel) (by simp) (UInt64.le_refl 1)
  have hcount : (Backup.restoreToPointInTime .framed (fun _ => (.listed, .listed))
      (Backup.create .framed (run (fun _ => (.listed, .listed)) oneNodeHistory).graph 1
        ⟨.none, ""⟩).2
      (run (fun _ => (.listed, .listed)) (oneNodeHistory ++ [])).file 1).toOption.map
        (fun g => ((g.getNode 0).isSome, (g.getNode 1).isSome)) = some (true, true) := by
    decide +kernel
  rw [hg] at hcount
  obtain ⟨hzero, hone⟩ := Prod.mk.inj (Option.some.inj hcount)
  -- Both nodes would be the copy of the only live node.
  have honly : ∀ n, ((run (fun _ => (.listed, .listed))
      ((oneNodeHistory ++ []).filter (·.2 ≤ 1))).graph.getNode n).isSome → n = 0 := by
    intro n hn
    have hlt := Graph.toNat_lt_of_getNode hn
    have hlen : (run (fun _ => (.listed, .listed))
      ((oneNodeHistory ++ []).filter (·.2 ≤ 1))).graph.nodes.length = 1 := by decide +kernel
    rw [hlen, Nat.lt_one_iff] at hlt
    exact UInt64.toNat_inj.mp hlt
  obtain ⟨n, hn, hn0⟩ := hcopy.nodes.surjOn hzero
  obtain ⟨m, hm, hm1⟩ := hcopy.nodes.surjOn hone
  rw [honly n hn] at hn0
  rw [honly m hm, hn0] at hm1
  exact absurd hm1 (by decide)

end Maharit
