import MaharitDb.Lib.DepthFirst
import MaharitDb.Storage.Transaction

/-!
# The lock table

Acquiring and releasing locks (`maharit-storage/src/transaction.rs`).  `acquire_lock` is a loop: each
iteration runs under the lock of the table, and between two of them it sleeps or gives up.  So the
calls in progress are part of the state, and a step is one iteration of one of them, the removal
after a timeout, or one of the other methods; the steps of different threads interleave freely.
-/

namespace Maharit

namespace LockInfo

/-- The entry of a resource that nobody has locked yet. -/
def new : LockInfo := ⟨.read, ∅, []⟩

/-- Can the lock be granted? -/
def canGrant (info : LockInfo) (mode : LockMode) (tx : TxId) : Bool :=
  if info.holders.toList.isEmpty then true
  else if tx ∈ info.holders then mode == .read || info.holders.toList.length == 1
  else
    match info.mode, mode with
    | .read, .read => true
    | .write, _ => false
    | .read, .write => false

/-- Grant the lock. -/
def grant (info : LockInfo) (mode : LockMode) (tx : TxId) : LockInfo :=
  { info with
    mode := if mode = .write ∨ info.holders.toList.isEmpty then mode else info.mode
    holders := info.holders.add tx }

/-- Is the transaction in the waiting queue? -/
def isWaiting (info : LockInfo) (tx : TxId) : Bool := info.waiting.any (·.1 = tx)

/-- Add a request to the waiting queue if its transaction is not already there. -/
def enqueue (info : LockInfo) (mode : LockMode) (tx : TxId) : LockInfo :=
  if info.isWaiting tx then info else { info with waiting := info.waiting ++ [(tx, mode)] }

/-- Remove a transaction from the waiting queue. -/
def dequeue (info : LockInfo) (tx : TxId) : LockInfo :=
  { info with waiting := info.waiting.filter (·.1 ≠ tx) }

/-- The waiter that the lock goes to when a transaction releases it. -/
def handover (info : LockInfo) (tx : TxId) : Option (TxId × LockMode) :=
  if (info.holders.remove tx).toList.isEmpty then info.waiting.head? else none

lemma isEmpty_toList {s : HashSet TxId} : s.toList.isEmpty ↔ ∀ tx, tx ∉ s := by
  rw [List.isEmpty_iff, List.eq_nil_iff_forall_not_mem]
  rfl

lemma isWaiting_iff {info : LockInfo} {tx : TxId} :
    info.isWaiting tx ↔ ∃ mode, (tx, mode) ∈ info.waiting := by
  simp [isWaiting]

/-- Releasing a lock without a waiter to go to only removes the holder. -/
lemma release_of_handover_none {info : LockInfo} {tx : TxId} (h : info.handover tx = none) :
    info.release tx = { info with holders := info.holders.remove tx } := by
  unfold handover at h
  unfold release
  split at h
  · next hempty =>
    rw [List.head?_eq_none_iff] at h
    simp [hempty, h]
  · next hempty => simp [hempty]

/-- Releasing a lock with a waiter makes the waiter the only holder. -/
lemma release_of_handover_some {info : LockInfo} {tx next : TxId} {mode : LockMode}
    (h : info.handover tx = some (next, mode)) :
    (∀ u, u ∉ info.holders.remove tx) ∧ (next, mode) ∈ info.waiting ∧
      info.release tx = ⟨mode, (info.holders.remove tx).add next, info.waiting.tail⟩ := by
  unfold handover at h
  split at h
  · next hempty =>
    obtain ⟨waiting, hwaiting⟩ := List.head?_eq_some_iff.mp h
    refine ⟨isEmpty_toList.mp hempty, by simp [hwaiting], ?_⟩
    simp [release, hempty, hwaiting]
  · cases h

end LockInfo

namespace TransactionManager

/-! ## Deadlock detection -/

/-- The resources whose holders a transaction waits for, and these holders, without the resource
that is requested. -/
def waitsFor (locks : HashMap String LockInfo) (requested : String) (tx : TxId) : List TxId :=
  locks.entries.flatMap fun e =>
    if e.1 = requested then [] else if e.2.isWaiting tx then e.2.holders.toList else []

lemma mem_waitsFor {locks : HashMap String LockInfo} {requested : String} {tx holder : TxId} :
    holder ∈ waitsFor locks requested tx ↔ ∃ resource info, resource ≠ requested ∧
      locks.lookup resource = some info ∧ info.isWaiting tx ∧ holder ∈ info.holders := by
  simp only [waitsFor, List.mem_flatMap]
  constructor
  · rintro ⟨⟨resource, info⟩, hentry, hholder⟩
    split at hholder
    · cases hholder
    · next hne =>
      split at hholder
      · next hwaiting =>
        exact ⟨resource, info, hne, AList.mem_lookup_iff.mpr hentry, hwaiting, hholder⟩
      · cases hholder
  · rintro ⟨resource, info, hne, hlookup, hwaiting, hholder⟩
    refine ⟨⟨resource, info⟩, AList.mem_lookup_iff.mp hlookup, ?_⟩
    simpa [hne, hwaiting] using hholder

/-- The graph that is searched for a deadlock. -/
def waitForGraph (locks : HashMap String LockInfo) (requested : String) : FiniteGraph TxId where
  succ := waitsFor locks requested
  nodes := locks.entries.flatMap fun e => e.2.waiting.map (·.1)
  complete := by
    intro tx htx
    rw [List.eq_nil_iff_forall_not_mem]
    intro holder hholder
    obtain ⟨resource, info, -, hlookup, hwaiting, -⟩ := mem_waitsFor.mp hholder
    obtain ⟨mode, hmode⟩ := LockInfo.isWaiting_iff.mp hwaiting
    refine htx (List.mem_flatMap.mpr ⟨⟨resource, info⟩, AList.mem_lookup_iff.mp hlookup, ?_⟩)
    exact List.mem_map.mpr ⟨(tx, mode), hmode, rfl⟩

/-- `would_cause_deadlock_internal`. -/
def wouldCauseDeadlock (locks : HashMap String LockInfo) (tx : TxId) (resource : String) : Bool :=
  match locks.lookup resource with
  | none => false
  | some info =>
      (waitForGraph locks resource).search tx
        (FiniteGraph.push [tx] [] info.holders.toList) []

/-! ## Acquiring and releasing -/

/-- One iteration of the loop of `acquire_lock`, and its result when the loop is left. -/
def acquireIteration (tm : TransactionManager) (tx : TxId) (resource : String) (mode : LockMode) :
    TransactionManager × Option (Except TransactionError Unit) :=
  if wouldCauseDeadlock tm.locks tx resource then (tm, some (.error .deadlock))
  else
    let info := (tm.locks.lookup resource).getD .new
    if info.canGrant mode tx then
      ({ tm with
          locks := tm.locks.insert resource (info.grant mode tx)
          transactions := HashMap.modify tm.transactions tx fun t =>
            { t with heldLocks := t.heldLocks.add resource } }, some (.ok ()))
    else ({ tm with locks := tm.locks.insert resource (info.enqueue mode tx) }, none)

/-- `acquire_lock` gives up after a timeout. -/
def acquireTimeout (tm : TransactionManager) (tx : TxId) (resource : String) :
    TransactionManager × Except TransactionError Unit :=
  ({ tm with locks := HashMap.modify tm.locks resource (·.dequeue tx) },
    .error (.lockTimeout resource))

/-- Release a specific lock. -/
def releaseLock (tm : TransactionManager) (tx : TxId) (resource : String) : TransactionManager :=
  { tm with
    locks := HashMap.modify tm.locks resource (·.release tx)
    transactions := HashMap.modify tm.transactions tx fun t =>
      { t with heldLocks := t.heldLocks.remove resource } }

/-- What `rollback_backend` does to the manager. -/
def rollbackManager (tm : TransactionManager) (tx : TxId) :
    Except TransactionError TransactionManager := do
  let t ← tm.getActive tx
  return tm.finish tx t .rolledBack

lemma rollbackBackend_map_fst {σ : Type} [GraphBackend σ] (tm : TransactionManager) (tx : TxId)
    (g : σ) : (tm.rollbackBackend tx g).map (·.1) = tm.rollbackManager tx := by
  unfold rollbackBackend rollbackManager
  cases tm.getActive tx <;> rfl

end TransactionManager

/-! ## Threads -/

/-- A call of `acquire_lock` in progress. -/
structure AcquireCall where
  tx : TxId
  resource : String
  mode : LockMode
  /-- The call has been through an iteration that did not grant the lock. -/
  waited : Bool
  deriving DecidableEq

/-- The manager and the calls of `acquire_lock` in progress, by thread. -/
structure LockSystem where
  manager : TransactionManager
  calls : ℕ → Option AcquireCall

/-- What a thread does. -/
inductive LockStep where
  | begin (readOnly : Bool)
  /-- A thread calls `acquire_lock`. -/
  | acquireLock (thread : ℕ) (tx : TxId) (resource : String) (mode : LockMode)
  /-- The call of a thread goes through one iteration. -/
  | iterate (thread : ℕ)
  /-- The call of a thread gives up after a timeout. -/
  | timeout (thread : ℕ)
  | releaseLock (tx : TxId) (resource : String)
  | commit (tx : TxId)
  | rollback (tx : TxId)

namespace LockSystem

/-- No transaction and no call. -/
def new : LockSystem := ⟨.new, fun _ => none⟩

/-- One step; a thread that is not where the step begins does nothing. -/
def step (s : LockSystem) : LockStep → LockSystem
  | .begin readOnly => { s with manager := (s.manager.beginWithOptions readOnly).1 }
  | .acquireLock thread tx resource mode =>
      match s.calls thread with
      | some _ => s
      | none => { s with calls := Function.update s.calls thread (some ⟨tx, resource, mode, false⟩) }
  | .iterate thread =>
      match s.calls thread with
      | none => s
      | some c =>
          match s.manager.acquireIteration c.tx c.resource c.mode with
          | (tm, some _) => ⟨tm, Function.update s.calls thread none⟩
          | (tm, none) => ⟨tm, Function.update s.calls thread (some { c with waited := true })⟩
  | .timeout thread =>
      match s.calls thread with
      | some c =>
          if c.waited then
            ⟨(s.manager.acquireTimeout c.tx c.resource).1, Function.update s.calls thread none⟩
          else s
      | none => s
  | .releaseLock tx resource => { s with manager := s.manager.releaseLock tx resource }
  | .commit tx =>
      match s.manager.commit tx with
      | .ok tm => { s with manager := tm }
      | .error _ => s
  | .rollback tx =>
      match s.manager.rollbackManager tx with
      | .ok tm => { s with manager := tm }
      | .error _ => s

/-- The state after a run. -/
def run (steps : List LockStep) : LockSystem := steps.foldl step new

end LockSystem

end Maharit
