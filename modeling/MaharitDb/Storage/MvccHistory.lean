import MaharitDb.Storage.MvccSnapshots

/-!
# Transactions one after the other

When transactions do not overlap, the undeleted versions of a node form a stack: a committed write
pushes its data, a committed delete pops one entry, and a rolled-back transaction leaves the chain
as it found it (`liveData_history`).  A snapshot reads the top of the stack, so a delete uncovers
what an earlier write left there; `readNode_history_iff` says for which histories that does not
happen.
-/

namespace Maharit.Mvcc

/-! ## Histories -/

/-- What a transaction does before it ends. -/
inductive MvccTxnOp where
  | writeNode (nodeId : UInt64) (data : NodeData)
  | deleteNode (nodeId : UInt64)
  | beginSnapshot

/-- The call that a transaction makes. -/
def MvccTxnOp.call (txnId : ℕ) : MvccTxnOp → MvccOp
  | .writeNode nodeId data => .writeNode nodeId data txnId
  | .deleteNode nodeId => .deleteNode nodeId txnId
  | .beginSnapshot => .beginSnapshot

/-- A transaction: its operations, and whether it commits or rolls back. -/
structure MvccTxn where
  ops : List MvccTxnOp
  commits : Bool

/-- A write or a delete of one node. -/
inductive NodeOp where
  | write (data : NodeData)
  | delete

/-- The operation as one on node `n`, if it is one. -/
def MvccTxnOp.on (n : UInt64) : MvccTxnOp → Option NodeOp
  | .writeNode nodeId data => if n = nodeId then some (.write data) else none
  | .deleteNode nodeId => if n = nodeId then some .delete else none
  | .beginSnapshot => none

/-- The operations on node `n` of the committed transactions, in order. -/
def committedOps (history : List MvccTxn) (n : UInt64) : List NodeOp :=
  (history.filter MvccTxn.commits).flatMap fun t => t.ops.filterMap (MvccTxnOp.on n)

/-- What the last operation on a node leaves of it. -/
def lastWritten (ops : List NodeOp) : Option NodeData :=
  match ops.getLast? with
  | some (.write data) => some data
  | some .delete => none
  | none => none

namespace MvccManager

/-- One transaction from its begin to its end. -/
def runTxn (m : MvccManager) (t : MvccTxn) : MvccManager :=
  let (txnId, m) := m.beginTransaction
  let m := m.run (t.ops.map (MvccTxnOp.call txnId))
  if t.commits then m.commit txnId else m.rollback txnId

/-- Transactions that run one after the other. -/
def runTxns (m : MvccManager) (history : List MvccTxn) : MvccManager := history.foldl runTxn m

/-! ## Undeleted versions as a stack -/

/-- The data of the versions that are not deleted, oldest first. -/
def liveData (vs : List NodeVersion) : List NodeData :=
  (vs.filter fun v => v.deletedAt.isNone).map NodeVersion.data

end MvccManager

/-- A write pushes, a delete pops. -/
def NodeOp.onStack (stack : List NodeData) : NodeOp → List NodeData
  | .write data => stack ++ [data]
  | .delete => stack.dropLast

namespace MvccManager

/-- Marking the newest undeleted version pops it. -/
theorem liveData_markNewest (ts t : ℕ) (vs : List NodeVersion) :
    liveData (markNewest ts t vs) = (liveData vs).dropLast := by
  have hrev : ∀ l : List NodeVersion,
      (l.lookmap (markDeleted ts t)).filter (fun v => v.deletedAt.isNone) =
        (l.filter fun v => v.deletedAt.isNone).tail := by
    intro l
    induction l with
    | nil => rfl
    | cons v l ih =>
      cases hv : v.deletedAt with
      | none =>
        rw [List.lookmap_cons_some _ _ (markDeleted_live hv ts t)]
        simp [hv]
      | some d =>
        rw [List.lookmap_cons_none _ _ (markDeleted_deleted hv ts t),
          List.filter_cons_of_neg (by simp [hv]), List.filter_cons_of_neg (by simp [hv]), ih]
  unfold liveData markNewest
  rw [List.filter_reverse, hrev, List.filter_reverse, List.tail_reverse, List.reverse_reverse,
    List.map_dropLast]

/-- Undoing a transaction forgets the version it has just written. -/
theorem undoChain_append_own (t ts : ℕ) (data : NodeData) (vs : List NodeVersion) :
    undoChain t (vs ++ [⟨t, ts, none, none, data⟩]) = undoChain t vs := by
  simp [undoChain, undoDelete]

/-- Undoing a transaction forgets the mark it has just made. -/
theorem undoChain_markNewest {ts t : ℕ} {vs : List NodeVersion}
    (h : ∀ v ∈ vs, v.deletedAt = none → v.deleterTxn = none) :
    undoChain t (markNewest ts t vs) = undoChain t vs := by
  have hrev : ∀ l : List NodeVersion, (∀ v ∈ l, v.deletedAt = none → v.deleterTxn = none) →
      (l.lookmap (markDeleted ts t)).map (undoDelete t) = l.map (undoDelete t) := by
    intro l hl
    induction l with
    | nil => rfl
    | cons v l ih =>
      cases hv : v.deletedAt with
      | none =>
        have hdeleter : v.deleterTxn = none := hl v (List.mem_cons_self ..) hv
        have hundone : undoDelete t { v with deletedAt := some ts, deleterTxn := some t } =
            undoDelete t v := by
          obtain ⟨txnId, createdAt, deletedAt, deleterTxn, data⟩ := v
          obtain rfl : deletedAt = none := hv
          obtain rfl : deleterTxn = none := hdeleter
          simp [undoDelete]
        rw [List.lookmap_cons_some _ _ (markDeleted_live hv ts t), List.map_cons, List.map_cons,
          hundone]
      | some d =>
        rw [List.lookmap_cons_none _ _ (markDeleted_deleted hv ts t), List.map_cons, List.map_cons,
          ih fun w hw => hl w (List.mem_cons_of_mem _ hw)]
  unfold undoChain markNewest
  rw [List.map_reverse, hrev _ (fun v hv => h v (List.mem_reverse.mp hv)), List.map_reverse,
    List.reverse_reverse]

/-- Undoing a transaction that has no part in a chain leaves the chain alone. -/
theorem undoChain_eq_self {t : ℕ} {vs : List NodeVersion}
    (h : ∀ v ∈ vs, v.txnId ≠ t ∧ v.deleterTxn ≠ some t) : undoChain t vs = vs := by
  have hmap : vs.map (undoDelete t) = vs := by
    conv_rhs => rw [← List.map_id vs]
    refine List.map_congr_left fun v hv => ?_
    simp [undoDelete, (h v hv).2]
  unfold undoChain
  rw [hmap, List.filter_eq_self]
  intro v hv
  simpa using (h v hv).1

/-! ## One transaction -/

/-- The operations of a transaction work on the stack of each node, and undoing the transaction
forgets them all. -/
theorem run_calls {m : MvccManager} {t : ℕ} (hm : m.Stamped) (ops : List MvccTxnOp) (n : UInt64) :
    liveData ((m.run (ops.map (MvccTxnOp.call t))).versions n) =
        (ops.filterMap (MvccTxnOp.on n)).foldl NodeOp.onStack (liveData (m.versions n)) ∧
      undoChain t ((m.run (ops.map (MvccTxnOp.call t))).versions n) =
        undoChain t (m.versions n) := by
  unfold MvccManager.run
  induction ops generalizing m with
  | nil => exact ⟨rfl, rfl⟩
  | cons op ops ih =>
    obtain ⟨hlive, hundo⟩ := ih (hm.step (op.call t))
    rw [List.map_cons, List.foldl_cons, hlive, hundo]
    cases op with
    | beginSnapshot => exact ⟨rfl, rfl⟩
    | writeNode nodeId data =>
      simp only [MvccTxnOp.call, step, versions_writeNode]
      by_cases hn : n = nodeId
      · have hpush : liveData (m.versions n ++ [⟨t, m.clock, none, none, data⟩]) =
            liveData (m.versions n) ++ [data] := by
          simp [liveData]
        rw [if_pos hn, undoChain_append_own, hpush]
        simp [MvccTxnOp.on, hn, NodeOp.onStack]
      · simp [MvccTxnOp.on, hn]
    | deleteNode nodeId =>
      simp only [MvccTxnOp.call, step, versions_deleteNode]
      by_cases hn : n = nodeId
      · rw [if_pos hn, undoChain_markNewest fun v hv => (hm.live n v hv).mp, liveData_markNewest]
        simp [MvccTxnOp.on, hn, NodeOp.onStack]
      · simp [MvccTxnOp.on, hn]

/-- The calls of a transaction are made under an id that was handed out. -/
theorem along_issued_calls {m : MvccManager} {t : ℕ} (h : t < m.nextTxnId) (ops : List MvccTxnOp) :
    GuardedRun.Along MvccManager.step Issued m (ops.map (MvccTxnOp.call t)) := by
  induction ops generalizing m with
  | nil => trivial
  | cons op ops ih =>
    refine ⟨?_, ih (lt_of_lt_of_le h (nextTxnId_le_step m _))⟩
    cases op with
    | writeNode nodeId data => exact h
    | deleteNode nodeId => exact h
    | beginSnapshot => trivial

/-- The operations of a transaction leave the set of active transactions alone. -/
theorem activeTransactions_calls (m : MvccManager) (t : ℕ) (ops : List MvccTxnOp) :
    (m.run (ops.map (MvccTxnOp.call t))).activeTransactions = m.activeTransactions := by
  unfold MvccManager.run
  induction ops generalizing m with
  | nil => rfl
  | cons op ops ih =>
    rw [List.map_cons, List.foldl_cons, ih]
    cases op <;> rfl

/-- The state between two transactions. -/
structure Idle (m : MvccManager) : Prop where
  stamped : m.Stamped
  issued : m.AllIssued
  idle : ∀ t, t ∉ m.activeTransactions

theorem idle_new : new.Idle := ⟨stamped_new, allIssued_new, fun _ h => by simp [new] at h⟩

/-- Nothing of a transaction is in the store before it begins. -/
theorem AllIssued.undoChain_next {m : MvccManager} (h : m.AllIssued) (n : UInt64) :
    undoChain m.nextTxnId (m.versions n) = m.versions n := by
  refine undoChain_eq_self fun v hv => ⟨(h n v hv).1.ne, fun hd => ?_⟩
  exact absurd ((h n v hv).2 _ hd) (Nat.lt_irrefl _)

/-- A transaction leaves the store idle, a committed one works on the stack of each node, and one
that rolls back leaves every stack as it was. -/
theorem Idle.runTxn {m : MvccManager} (h : m.Idle) (t : MvccTxn) :
    (m.runTxn t).Idle ∧ ∀ n, liveData ((m.runTxn t).versions n) =
      if t.commits then
        (t.ops.filterMap (MvccTxnOp.on n)).foldl NodeOp.onStack (liveData (m.versions n))
      else liveData (m.versions n) := by
  set m₁ := m.beginTransaction.2 with hm₁
  set m₂ := m₁.run (t.ops.map (MvccTxnOp.call m.nextTxnId)) with hm₂
  have hstamped₁ : m₁.Stamped := h.stamped.step .beginTransaction
  have hstamped₂ : m₂.Stamped := hstamped₁.run _
  have hissued₂ : m₂.AllIssued :=
    (@AllIssued.step m .beginTransaction h.issued trivial).run
      (along_issued_calls (Nat.lt_succ_self m.nextTxnId) t.ops)
  have hactive : ∀ t', t' ∈ m₂.activeTransactions → t' = m.nextTxnId := by
    intro t' ht'
    rw [hm₂, activeTransactions_calls] at ht'
    rcases (HashSet.mem_add _ _ _).mp ht' with rfl | hold
    · rfl
    · exact absurd hold (h.idle t')
  have hremoved : ∀ t', t' ∉ HashSet.remove m₂.activeTransactions m.nextTxnId := by
    intro t' ht'
    obtain ⟨hne, hmem⟩ := (HashSet.mem_remove _ _ _).mp ht'
    exact hne (hactive t' hmem)
  have hcalls := fun n => run_calls (t := m.nextTxnId) hstamped₁ t.ops n
  by_cases hc : t.commits
  · have hend : m.runTxn t = m₂.commit m.nextTxnId := by
      unfold MvccManager.runTxn
      exact if_pos hc
    rw [hend]
    refine ⟨⟨hstamped₂.step (.commit _), @AllIssued.step _ (.commit _) hissued₂ trivial, hremoved⟩,
      fun n => ?_⟩
    rw [if_pos hc, versions_commit]
    exact (hcalls n).1
  · have hend : m.runTxn t = m₂.rollback m.nextTxnId := by
      unfold MvccManager.runTxn
      exact if_neg hc
    rw [hend]
    refine ⟨⟨hstamped₂.step (.rollback _), @AllIssued.step _ (.rollback _) hissued₂ trivial, hremoved⟩,
      fun n => ?_⟩
    rw [if_neg hc, versions_rollback, hm₂, (hcalls n).2, hm₁, versions_beginTransaction,
      h.issued.undoChain_next]

/-- After a history of transactions the undeleted versions of each node are what the committed
operations push and do not pop. -/
theorem Idle.runTxns {m : MvccManager} (h : m.Idle) (history : List MvccTxn) :
    (m.runTxns history).Idle ∧ ∀ n, liveData ((m.runTxns history).versions n) =
      (committedOps history n).foldl NodeOp.onStack (liveData (m.versions n)) := by
  unfold MvccManager.runTxns
  induction history generalizing m with
  | nil => exact ⟨h, fun _ => rfl⟩
  | cons t history ih =>
    obtain ⟨hidle, hlive⟩ := h.runTxn t
    obtain ⟨hidle', hlive'⟩ := ih hidle
    refine ⟨hidle', fun n => ?_⟩
    rw [List.foldl_cons, hlive' n, hlive n]
    by_cases hc : t.commits
    · simp [committedOps, hc, List.foldl_append]
    · simp [committedOps, hc]

/-! ## Reading after a history -/

/-- With no transaction active a new snapshot sees exactly the undeleted versions. -/
theorem Idle.readNode_beginSnapshot {m : MvccManager} (h : m.Idle) (n : UInt64) :
    m.beginSnapshot.2.readNode n m.beginSnapshot.1 = (liveData (m.versions n)).getLast? := by
  have hvisible : ∀ v ∈ m.versions n, m.beginSnapshot.1.isVisible v = v.deletedAt.isNone := by
    intro v hv
    have hcreated : ¬ m.clock < v.createdAt := Nat.not_lt.mpr (h.stamped.created n v hv).le
    have hidle : ∀ t, t ∉ m.activeTransactions := h.idle
    cases hd : v.deletedAt with
    | none => simp [MvccSnapshot.isVisible, beginSnapshot, hcreated, hidle, hd]
    | some d =>
      have hlt : ¬ m.clock < d := Nat.not_lt.mpr (h.stamped.deleted n v hv d hd).le
      cases hdel : v.deleterTxn <;>
        simp [MvccSnapshot.isVisible, beginSnapshot, hcreated, hidle, hd, hdel, hlt]
  have hseen : (m.beginSnapshot.1.seen (m.versions n)).map Prod.snd = liveData (m.versions n) := by
    unfold MvccSnapshot.seen liveData
    generalize m.versions n = vs at hvisible ⊢
    induction vs with
    | nil => rfl
    | cons v vs ih =>
      have htail := ih fun w hw => hvisible w (List.mem_cons_of_mem _ hw)
      have hhead := hvisible v (List.mem_cons_self ..)
      cases hv : v.deletedAt.isNone with
      | true => simp [MvccSnapshot.seeAs, hhead, hv, htail]
      | false => simp [MvccSnapshot.seeAs, hhead, hv, htail]
  rw [readNode_eq, versions_beginSnapshot, ← hseen, List.getLast?_map]

end MvccManager

/-! ## When a delete deletes -/

namespace NodeOp

/-- Whether the operation is a write. -/
def isWrite : NodeOp → Bool
  | write _ => true
  | delete => false

/-- No end of the sequence has more writes than deletes. -/
def DeletesCover (ops : List NodeOp) : Prop :=
  ∀ tail, tail <:+ ops → tail.countP isWrite ≤ tail.countP fun op => !op.isWrite

/-- The stack is at most `k` high exactly when no end of the sequence has more than `k` writes in
excess. -/
theorem length_stack_le_iff (ops : List NodeOp) (k : ℕ) :
    (ops.foldl onStack []).length ≤ k ↔
      ∀ tail, tail <:+ ops → tail.countP isWrite ≤ (tail.countP fun op => !op.isWrite) + k := by
  induction ops using List.reverseRecOn generalizing k with
  | nil =>
    refine iff_of_true (Nat.zero_le k) fun tail htail => ?_
    simp [List.suffix_nil.mp htail]
  | append_singleton ops op ih =>
    -- an end of the longer sequence is empty, or an end of the shorter one with `op` after it
    have htails : (∀ tail, tail <:+ ops ++ [op] →
        tail.countP isWrite ≤ (tail.countP fun op => !op.isWrite) + k) ↔
        ∀ tail, tail <:+ ops →
          (tail ++ [op]).countP isWrite ≤ ((tail ++ [op]).countP fun op => !op.isWrite) + k := by
      constructor
      · rintro h tail ⟨pre, rfl⟩
        exact h _ ⟨pre, by simp⟩
      · rintro h tail ⟨pre, hpre⟩
        rcases List.eq_nil_or_concat' tail with rfl | ⟨front, last, rfl⟩
        · simp
        · rw [← List.append_assoc] at hpre
          obtain ⟨hfront, hlast⟩ := List.append_inj' hpre rfl
          cases hlast
          exact h front ⟨pre, hfront⟩
    rw [htails, List.foldl_append, List.foldl_cons, List.foldl_nil]
    cases op with
    | write data =>
      simp only [onStack, List.length_append, List.length_singleton, List.countP_append]
      cases k with
      | zero =>
        refine iff_of_false (by omega) fun h => ?_
        simpa [isWrite] using h [] ⟨ops, by simp⟩
      | succ k =>
        rw [Nat.add_le_add_iff_right, ih k]
        refine forall₂_congr fun tail _ => ?_
        simp only [List.countP_singleton, isWrite, if_true, Bool.not_true, Bool.false_eq_true,
          if_false]
        omega
    | delete =>
      simp only [onStack, List.length_dropLast, List.countP_append]
      rw [Nat.sub_le_iff_le_add, ih (k + 1)]
      refine forall₂_congr fun tail _ => ?_
      simp only [List.countP_singleton, isWrite, Bool.not_false, if_true, Bool.false_eq_true,
        if_false]
      omega

/-- The top of the stack is what the last operation leaves exactly when a final delete empties the
stack. -/
theorem getLast?_stack_eq_iff (ops : List NodeOp) :
    (ops.foldl onStack []).getLast? = lastWritten ops ↔
      (ops.getLast? = some .delete → DeletesCover ops) := by
  rcases List.eq_nil_or_concat' ops with rfl | ⟨front, op, rfl⟩
  · simp [lastWritten]
  · cases op with
    | write data => simp [lastWritten, onStack]
    | delete =>
      have hempty : DeletesCover (front ++ [delete]) ↔
          (front ++ [delete]).foldl onStack [] = [] := by
        rw [← List.length_eq_zero_iff, ← Nat.le_zero, length_stack_le_iff]
        rfl
      simp [lastWritten, hempty]

end NodeOp

end Maharit.Mvcc
