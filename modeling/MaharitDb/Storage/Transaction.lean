import MaharitDb.Core.GraphBackend

/-!
# Transactions

The transaction manager (`maharit-storage/src/transaction.rs`): transactions with their undo logs,
the lock table as far as finishing a transaction touches it, and the rollback through an arbitrary
`GraphBackend`.  Start times and waiting times are left out: they decide nothing here.
-/

namespace Maharit

/-- The id of a transaction. -/
abbrev TxId := UInt64

/-- The errors of the transaction manager. -/
inductive TransactionError where
  | notFound (tx : TxId)
  | alreadyFinished (tx : TxId)
  | lockTimeout (resource : String)
  | deadlock
  | readOnly (tx : TxId)
  deriving DecidableEq, Repr

/-- The mode of a lock. -/
inductive LockMode where
  | read
  | write
  deriving DecidableEq, Repr

/-- The state of a transaction. -/
inductive TransactionState where
  | active
  | committed
  | rolledBack
  deriving DecidableEq, Repr

/-- A change recorded during a transaction for rollback. -/
inductive UndoRecord where
  | createNode (nodeId : NodeId)
  | deleteNode (nodeId : NodeId) (labels : List String) (properties : Properties)
  | setProperty (nodeId : NodeId) (key : String) (oldValue : Option PropertyValue)
  | createEdge (edgeId : EdgeId)
  | deleteEdge (edgeId : EdgeId) (fromNode toNode : NodeId) (label : String)
      (properties : Properties)
  | setEdgeProperty (edgeId : EdgeId) (key : String) (oldValue : Option PropertyValue)
  /-- A label was added to a node. -/
  | addLabel (nodeId : NodeId) (label : String)
  /-- A label was removed from a node. -/
  | removeLabel (nodeId : NodeId) (label : String)

/-- The lock table entry of a resource. -/
structure LockInfo where
  mode : LockMode
  holders : HashSet TxId
  /-- The waiting requests, the next one first. -/
  waiting : List (TxId × LockMode)

/-- A transaction. -/
structure Transaction where
  id : TxId
  state : TransactionState
  readOnly : Bool
  undoLog : List UndoRecord
  heldLocks : HashSet String

/-- The transaction manager. -/
structure TransactionManager where
  nextTxId : UInt64
  transactions : HashMap TxId Transaction
  locks : HashMap String LockInfo

/-- Release a holder and grant the lock to the next waiter once nobody holds it. -/
def LockInfo.release (info : LockInfo) (tx : TxId) : LockInfo :=
  let holders := info.holders.remove tx
  if holders.toList.isEmpty then
    match info.waiting with
    | [] => { info with holders := holders }
    | (nextTx, nextMode) :: waiting => ⟨nextMode, holders.add nextTx, waiting⟩
  else { info with holders := holders }

/-! ## Taking back one record -/

namespace UndoRecord

variable {σ : Type} [GraphBackend σ]

/-- Apply the inverse of a record. -/
def undo (g : σ) : UndoRecord → σ
  | createNode nodeId => (GraphBackend.deleteNode g nodeId).1
  | deleteNode nodeId labels properties =>
      properties.entries.foldl (fun g p => GraphBackend.setNodeProperty g nodeId p.1 p.2)
        (GraphBackend.restoreNode g nodeId labels)
  | setProperty nodeId key (some value) => GraphBackend.setNodeProperty g nodeId key value
  | setProperty nodeId key none => (GraphBackend.removeNodeProperty g nodeId key).1
  | createEdge edgeId => (GraphBackend.deleteEdge g edgeId).1
  | deleteEdge edgeId fromNode toNode label properties =>
      match GraphBackend.restoreEdge g edgeId fromNode toNode label with
      | (g, .ok _) =>
          properties.entries.foldl (fun g p => GraphBackend.setEdgeProperty g edgeId p.1 p.2) g
      | (g, .error _) => g
  | setEdgeProperty edgeId key (some value) => GraphBackend.setEdgeProperty g edgeId key value
  | setEdgeProperty edgeId key none => (GraphBackend.removeEdgeProperty g edgeId key).1
  | addLabel nodeId label => GraphBackend.removeNodeLabel g nodeId label
  | removeLabel nodeId label => GraphBackend.addNodeLabel g nodeId label

/-- The node a record reports to the caller as touched. -/
def touched : UndoRecord → Option NodeId
  | createNode nodeId | deleteNode nodeId _ _ | setProperty nodeId _ _ | addLabel nodeId _
  | removeLabel nodeId _ => some nodeId
  | createEdge _ | deleteEdge _ _ _ _ _ | setEdgeProperty _ _ _ => none

/-- Taking a record back is a sequence of write calls. -/
theorem undo_eq_run (g : σ) (u : UndoRecord) : ∃ calls, u.undo g = WriteCall.run g calls := by
  have hprops : ∀ (call : (Sigma fun _ : String => PropertyValue) → WriteCall)
      (entries : List (Sigma fun _ : String => PropertyValue)) (g : σ),
      entries.foldl (fun g p => (call p).apply g) g = WriteCall.run g (entries.map call) := by
    intro call entries g
    rw [WriteCall.run, List.foldl_map]
  cases u with
  | createNode id => exact ⟨[.deleteNode id], rfl⟩
  | deleteNode id labels properties =>
    refine ⟨.restoreNode id labels ::
      properties.entries.map fun p => .setNodeProperty id p.1 p.2, ?_⟩
    exact hprops (fun p => .setNodeProperty id p.1 p.2) _ _
  | setProperty id key old =>
    cases old with
    | none => exact ⟨[.removeNodeProperty id key], rfl⟩
    | some v => exact ⟨[.setNodeProperty id key v], rfl⟩
  | createEdge id => exact ⟨[.deleteEdge id], rfl⟩
  | deleteEdge id fromNode toNode label properties =>
    -- The properties are put back only when the edge was restored.
    rcases hres : GraphBackend.restoreEdge g id fromNode toNode label with ⟨g', _ | _⟩
    · refine ⟨[.restoreEdge id fromNode toNode label], ?_⟩
      simp only [undo, hres, WriteCall.run_cons, WriteCall.apply, WriteCall.run_nil]
    · refine ⟨.restoreEdge id fromNode toNode label ::
        properties.entries.map fun p => .setEdgeProperty id p.1 p.2, ?_⟩
      simp only [undo, hres, WriteCall.run_cons, WriteCall.apply]
      exact hprops (fun p => .setEdgeProperty id p.1 p.2) _ _
  | setEdgeProperty id key old =>
    cases old with
    | none => exact ⟨[.removeEdgeProperty id key], rfl⟩
    | some v => exact ⟨[.setEdgeProperty id key v], rfl⟩
  | addLabel id label => exact ⟨[.removeNodeLabel id label], rfl⟩
  | removeLabel id label => exact ⟨[.addNodeLabel id label], rfl⟩

/-- A rollback is a run of write calls like any other. -/
theorem foldl_undo_eq_run (g : σ) (log : List UndoRecord) :
    ∃ calls, log.foldl undo g = WriteCall.run g calls := by
  induction log generalizing g with
  | nil => exact ⟨[], rfl⟩
  | cons u log ih =>
    obtain ⟨calls, hu⟩ := undo_eq_run g u
    obtain ⟨calls', hlog⟩ := ih (u.undo g)
    refine ⟨calls ++ calls', ?_⟩
    rw [List.foldl_cons, hlog, hu, WriteCall.run_append]

end UndoRecord

/-! ## The manager -/

namespace TransactionManager

/-- A manager without transactions. -/
def new : TransactionManager := ⟨1, ∅, ∅⟩

/-- `begin_with_options`. -/
def beginWithOptions (tm : TransactionManager) (readOnly : Bool) : TransactionManager × TxId :=
  let tx := tm.nextTxId
  ({ tm with
      nextTxId := tm.nextTxId + 1
      transactions := tm.transactions.insert tx ⟨tx, .active, readOnly, [], ∅⟩ }, tx)

/-- Begin a new transaction. -/
def begin (tm : TransactionManager) : TransactionManager × TxId := tm.beginWithOptions false

/-- Look a transaction up. -/
def getTransaction (tm : TransactionManager) (tx : TxId) : Except TransactionError Transaction :=
  match tm.transactions.lookup tx with
  | none => .error (.notFound tx)
  | some t => .ok t

/-- Look a transaction up that is still running. -/
def getActive (tm : TransactionManager) (tx : TxId) : Except TransactionError Transaction := do
  let t ← tm.getTransaction tx
  if t.state ≠ .active then throw (.alreadyFinished tx)
  return t

/-- Either the transaction is running, or looking it up fails. -/
lemma getActive_cases (tm : TransactionManager) (tx : TxId) :
    (∃ e, tm.getActive tx = .error e) ∨
      ∃ t, tm.transactions.lookup tx = some t ∧ t.state = .active ∧ tm.getActive tx = .ok t := by
  cases htx : tm.transactions.lookup tx with
  | none => exact .inl ⟨.notFound tx, by simp [getActive, getTransaction, htx, bind, Except.bind]⟩
  | some t =>
    by_cases hactive : t.state = .active
    · refine .inr ⟨t, rfl, hactive, ?_⟩
      simp [getActive, getTransaction, htx, hactive, bind, Except.bind, pure, Except.pure]
    · refine .inl ⟨.alreadyFinished tx, ?_⟩
      simp [getActive, getTransaction, htx, hactive, bind, Except.bind, throw, throwThe,
        MonadExceptOf.throw]

/-- Release every lock a transaction holds. -/
def releaseAllLocks (tm : TransactionManager) (tx : TxId) (held : HashSet String) :
    TransactionManager :=
  { tm with
    locks := held.toList.foldl
      (fun locks resource => HashMap.modify locks resource (·.release tx)) tm.locks }

/-- Close a transaction: release its locks, clear its undo log and set its final state. -/
def finish (tm : TransactionManager) (tx : TxId) (t : Transaction) (state : TransactionState) :
    TransactionManager :=
  let tm := tm.releaseAllLocks tx t.heldLocks
  { tm with transactions := tm.transactions.insert tx { t with undoLog := [], state := state } }

/-- Commit a transaction. -/
def commit (tm : TransactionManager) (tx : TxId) : Except TransactionError TransactionManager := do
  let t ← tm.getActive tx
  return tm.finish tx t .committed

/-- Append undo records captured while executing a statement, in execution order. -/
def recordUndo (tm : TransactionManager) (tx : TxId) (records : List UndoRecord) :
    Except TransactionError TransactionManager := do
  let t ← tm.getActive tx
  return { tm with
    transactions := tm.transactions.insert tx { t with undoLog := t.undoLog ++ records } }

/-- Roll a transaction back against any backend: the records are taken back in reverse order and
the touched nodes are reported, sorted and without repetition. -/
def rollbackBackend {σ : Type} [GraphBackend σ] (tm : TransactionManager) (tx : TxId) (g : σ) :
    Except TransactionError (TransactionManager × σ × List NodeId) := do
  let t ← tm.getActive tx
  let records := t.undoLog.reverse
  let touched := records.filterMap UndoRecord.touched
  return (tm.finish tx t .rolledBack, records.foldl UndoRecord.undo g,
    (touched.mergeSort (fun a b => decide (a ≤ b))).dedup)

end TransactionManager

end Maharit
