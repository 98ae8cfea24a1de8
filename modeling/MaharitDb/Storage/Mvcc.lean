import MaharitDb.Lib.AssocMap
import MaharitDb.Core.PropertyValue

/-!
# Multi-version concurrency control

The versioned node store (`maharit-storage/src/mvcc.rs`).  A node has a chain of versions, oldest
first; a delete marks one of them, a rollback takes the marks and the versions of its transaction
away, and a snapshot reads the newest version its visibility rule lets through.

The clock and the transaction counter count the calls made so far, so they are natural numbers.
Each operation has one lemma that says what it does to the chain of every node
(`versions_writeNode`, `versions_deleteNode`, `versions_rollback`, `versions_gc`); the later files
use only those.
-/

namespace Maharit.Mvcc

/-! ## Data -/

/-- The property values of the versioned store, kept apart from those of the graph. -/
inductive PropertyValue where
  | null
  | bool (b : Bool)
  | int (i : Int64)
  | float (x : F64)
  | string (s : String)
  deriving DecidableEq, Repr

/-- What one version says of its node. -/
structure NodeData where
  label : String
  properties : HashMap String PropertyValue

/-- One entry in the version chain of a node. -/
structure NodeVersion where
  /-- The transaction that wrote the version. -/
  txnId : ℕ
  /-- The clock when the version was written. -/
  createdAt : ℕ
  /-- The clock when the version was deleted, if it was. -/
  deletedAt : Option ℕ
  /-- The transaction that deleted the version, if one did. -/
  deleterTxn : Option ℕ
  data : NodeData

/-- The version chain of one node, oldest version first. -/
structure VersionedNode where
  nodeId : UInt64
  versions : List NodeVersion

/-- A point-in-time view: the clock, and the transactions that were active, when it was taken. -/
structure MvccSnapshot where
  snapshotId : ℕ
  activeTxns : HashSet ℕ

/-- `MvccSnapshot::is_visible`. -/
def MvccSnapshot.isVisible (s : MvccSnapshot) (v : NodeVersion) : Bool :=
  if s.snapshotId < v.createdAt then false
  else if v.txnId ∈ s.activeTxns then false
  else
    match v.deletedAt, v.deleterTxn with
    | none, _ => true
    | some delTs, some deleter => decide (deleter ∈ s.activeTxns) || decide (s.snapshotId < delTs)
    | some delTs, none => decide (s.snapshotId < delTs)

/-- The versioned nodes, the clock and the transactions that are under way. -/
structure MvccManager where
  versionedNodes : HashMap UInt64 VersionedNode
  clock : ℕ
  activeTransactions : HashSet ℕ
  nextTxnId : ℕ

namespace MvccManager

/-! ## Operations -/

/-- `MvccManager::new`. -/
def new : MvccManager :=
  { versionedNodes := ∅, clock := 1, activeTransactions := ∅, nextTxnId := 1 }

/-- `tick`: the clock before it was advanced. -/
def tick (m : MvccManager) : ℕ × MvccManager :=
  (m.clock, { m with clock := m.clock + 1 })

/-- `begin_transaction`. -/
def beginTransaction (m : MvccManager) : ℕ × MvccManager :=
  (m.nextTxnId,
    { m with
      nextTxnId := m.nextTxnId + 1
      activeTransactions := m.activeTransactions.add m.nextTxnId })

/-- `begin_snapshot`. -/
def beginSnapshot (m : MvccManager) : MvccSnapshot × MvccManager :=
  (⟨m.clock, m.activeTransactions⟩, { m with clock := m.clock + 1 })

/-- `read_node`: the newest version the snapshot sees. -/
def readNode (m : MvccManager) (nodeId : UInt64) (s : MvccSnapshot) : Option NodeData := do
  let versioned ← m.versionedNodes.lookup nodeId
  (versioned.versions.reverse.find? s.isVisible).map NodeVersion.data

/-- `write_node`. -/
def writeNode (m : MvccManager) (nodeId : UInt64) (data : NodeData) (txnId : ℕ) : MvccManager :=
  let (ts, m) := m.tick
  let version : NodeVersion :=
    { txnId, createdAt := ts, deletedAt := none, deleterTxn := none, data }
  let versioned := (m.versionedNodes.lookup nodeId).getD ⟨nodeId, []⟩
  { m with
    versionedNodes := m.versionedNodes.insert nodeId
      { versioned with versions := versioned.versions ++ [version] } }

/-- Mark a version as deleted, unless it is already. -/
def markDeleted (ts txnId : ℕ) (v : NodeVersion) : Option NodeVersion :=
  if v.deletedAt.isNone then some { v with deletedAt := some ts, deleterTxn := some txnId } else none

/-- Mark the newest version that is not deleted yet (`iter_mut().rev().find(..)`). -/
def markNewest (ts txnId : ℕ) (versions : List NodeVersion) : List NodeVersion :=
  (versions.reverse.lookmap (markDeleted ts txnId)).reverse

/-- `delete_node`. -/
def deleteNode (m : MvccManager) (nodeId : UInt64) (txnId : ℕ) : MvccManager :=
  let (ts, m) := m.tick
  { m with
    versionedNodes := HashMap.modify m.versionedNodes nodeId fun versioned =>
      { versioned with versions := markNewest ts txnId versioned.versions } }

/-- `commit`. -/
def commit (m : MvccManager) (txnId : ℕ) : MvccManager :=
  { m with activeTransactions := m.activeTransactions.remove txnId }

/-- Take back the delete that `txnId` issued on a version. -/
def undoDelete (txnId : ℕ) (v : NodeVersion) : NodeVersion :=
  if v.deleterTxn = some txnId then { v with deletedAt := none, deleterTxn := none } else v

/-- What a rollback of `txnId` leaves of a chain: its deletes are undone, its versions are gone. -/
def undoChain (txnId : ℕ) (versions : List NodeVersion) : List NodeVersion :=
  (versions.map (undoDelete txnId)).filter fun v => v.txnId ≠ txnId

/-- `rollback`. -/
def rollback (m : MvccManager) (txnId : ℕ) : MvccManager :=
  { m with
    versionedNodes := HashMap.mapValues m.versionedNodes fun versioned =>
      { versioned with versions := undoChain txnId versioned.versions }
    activeTransactions := m.activeTransactions.remove txnId }

/-- The bound below which `gc` takes a time stamp for old; `u64::MAX` when no transaction is
active. -/
def watermark (m : MvccManager) : ℕ :=
  if m.activeTransactions.toList.isEmpty then 2 ^ 64 - 1 else m.clock

/-- The decision of `gc` on a version, given the versions after it in the chain. -/
def collectable (watermark : ℕ) (v : NodeVersion) (newer : List NodeVersion) : Bool :=
  match v.deletedAt with
  | some delTs => decide (delTs < watermark)
  | none => newer.any fun nv => nv.deletedAt.isNone && decide (nv.createdAt < watermark)

/-- The versions that `gc` keeps of a chain in chronological order. -/
def retained (watermark : ℕ) : List NodeVersion → List NodeVersion
  | [] => []
  | v :: newer =>
      if collectable watermark v newer then retained watermark newer
      else v :: retained watermark newer

/-- What `gc` leaves of a chain. -/
def collect (watermark : ℕ) (versions : List NodeVersion) : List NodeVersion :=
  retained watermark (versions.mergeSort fun v w => v.createdAt ≤ w.createdAt)

/-- `gc`, with the number of versions it removed. -/
def gc (m : MvccManager) : ℕ × MvccManager :=
  let removed := m.versionedNodes.entries.map fun e =>
    e.2.versions.length - (collect m.watermark e.2.versions).length
  let nodes := HashMap.mapValues m.versionedNodes fun versioned =>
    { versioned with versions := collect m.watermark versioned.versions }
  (removed.sum,
    { m with versionedNodes := HashMap.retainValues nodes fun vn => !vn.versions.isEmpty })

theorem markDeleted_live {v : NodeVersion} (h : v.deletedAt = none) (ts txnId : ℕ) :
    markDeleted ts txnId v = some { v with deletedAt := some ts, deleterTxn := some txnId } := by
  simp [markDeleted, h]

theorem markDeleted_deleted {v : NodeVersion} {d : ℕ} (h : v.deletedAt = some d) (ts txnId : ℕ) :
    markDeleted ts txnId v = none := by
  simp [markDeleted, h]

/-! ## Chains -/

/-- The version chain of a node; a node that has no entry has none. -/
def versions (m : MvccManager) (n : UInt64) : List NodeVersion :=
  ((m.versionedNodes.lookup n).map VersionedNode.versions).getD []

@[simp] theorem versions_new (n : UInt64) : new.versions n = [] := rfl

theorem versions_beginTransaction (m : MvccManager) (n : UInt64) :
    m.beginTransaction.2.versions n = m.versions n := rfl

theorem versions_beginSnapshot (m : MvccManager) (n : UInt64) :
    m.beginSnapshot.2.versions n = m.versions n := rfl

theorem versions_commit (m : MvccManager) (txnId : ℕ) (n : UInt64) :
    (m.commit txnId).versions n = m.versions n := rfl

/-- A write appends one version to the chain of its node. -/
theorem versions_writeNode (m : MvccManager) (nodeId : UInt64) (data : NodeData) (txnId : ℕ)
    (n : UInt64) :
    (m.writeNode nodeId data txnId).versions n =
      if n = nodeId then
        m.versions n ++ [⟨txnId, m.clock, none, none, data⟩]
      else m.versions n := by
  unfold writeNode versions tick
  simp only [HashMap.lookup_insert_ite]
  by_cases h : n = nodeId
  · subst h
    cases hn : m.versionedNodes.lookup n <;> simp
  · simp [h]

/-- A delete marks one version in the chain of its node. -/
theorem versions_deleteNode (m : MvccManager) (nodeId : UInt64) (txnId : ℕ) (n : UInt64) :
    (m.deleteNode nodeId txnId).versions n =
      if n = nodeId then markNewest m.clock txnId (m.versions n) else m.versions n := by
  unfold deleteNode versions tick
  simp only [HashMap.lookup_modify]
  by_cases h : n = nodeId
  · subst h
    cases hn : m.versionedNodes.lookup n <;> simp [markNewest]
  · simp [h]

/-- A rollback undoes its transaction in every chain. -/
theorem versions_rollback (m : MvccManager) (txnId : ℕ) (n : UInt64) :
    (m.rollback txnId).versions n = undoChain txnId (m.versions n) := by
  unfold rollback versions
  simp only [HashMap.lookup_mapValues]
  cases hn : m.versionedNodes.lookup n <;> simp [undoChain]

/-- A collection goes over every chain; whether an emptied chain keeps its entry makes no
difference. -/
theorem versions_gc (m : MvccManager) (n : UInt64) :
    m.gc.2.versions n = collect m.watermark (m.versions n) := by
  unfold gc versions
  simp only [HashMap.lookup_retainValues, HashMap.lookup_mapValues]
  cases hn : m.versionedNodes.lookup n with
  | none => simp [collect, retained]
  | some vn =>
    cases hvs : collect m.watermark vn.versions with
    | nil => simp [Option.filter, hvs]
    | cons v rest => simp [Option.filter, hvs]

/-! ## What a snapshot sees -/

end MvccManager

/-- A version as the snapshot sees it: when it was written and what it says, if it is visible. -/
def MvccSnapshot.seeAs (s : MvccSnapshot) (v : NodeVersion) : Option (ℕ × NodeData) :=
  if s.isVisible v then some (v.createdAt, v.data) else none

/-- What a snapshot sees of a chain, oldest first. -/
def MvccSnapshot.seen (s : MvccSnapshot) (versions : List NodeVersion) : List (ℕ × NodeData) :=
  versions.filterMap s.seeAs

namespace MvccManager

/-- A read returns the newest of what the snapshot sees. -/
theorem readNode_eq (m : MvccManager) (n : UInt64) (s : MvccSnapshot) :
    m.readNode n s = (s.seen (m.versions n)).getLast?.map Prod.snd := by
  have hchain : ∀ vs : List NodeVersion,
      (vs.reverse.find? s.isVisible).map NodeVersion.data = (s.seen vs).getLast?.map Prod.snd := by
    intro vs
    induction vs using List.reverseRecOn with
    | nil => rfl
    | append_singleton vs v ih =>
      unfold MvccSnapshot.seen at ih ⊢
      rw [List.reverse_concat, List.find?_cons, List.filterMap_append]
      by_cases hv : s.isVisible v
      · simp [hv, MvccSnapshot.seeAs]
      · simp [hv, MvccSnapshot.seeAs, ih]
  unfold readNode versions
  cases hn : m.versionedNodes.lookup n with
  | none => rfl
  | some vn => exact hchain vn.versions

end MvccManager

end Maharit.Mvcc
