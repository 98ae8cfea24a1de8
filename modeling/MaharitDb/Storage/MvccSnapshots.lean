import MaharitDb.Lib.GuardedRun
import MaharitDb.Storage.Mvcc

/-!
# Snapshots of the versioned store

A snapshot reads the same as long as no version it sees is taken away and no delete it does not see
comes into its sight.  Versions and marks of transactions that are still under way are the only ones
a rollback can take back, and `Shields` says that a snapshot sees none of those; every operation
keeps it (`Shields.step`), and what the snapshot sees stays the same along every run that rolls back
active transactions only and does not collect (`seen_run`).
-/

namespace Maharit.Mvcc

/-! ## Calls and runs -/

/-- A call on the manager. -/
inductive MvccOp where
  | beginTransaction
  | beginSnapshot
  | writeNode (nodeId : UInt64) (data : NodeData) (txnId : ℕ)
  | deleteNode (nodeId : UInt64) (txnId : ℕ)
  | commit (txnId : ℕ)
  | rollback (txnId : ℕ)
  | gc

namespace MvccManager

/-- The manager after a call. -/
def step (m : MvccManager) : MvccOp → MvccManager
  | .beginTransaction => m.beginTransaction.2
  | .beginSnapshot => m.beginSnapshot.2
  | .writeNode nodeId data txnId => m.writeNode nodeId data txnId
  | .deleteNode nodeId txnId => m.deleteNode nodeId txnId
  | .commit txnId => m.commit txnId
  | .rollback txnId => m.rollback txnId
  | .gc => m.gc.2

/-- The manager after a sequence of calls. -/
def run (m : MvccManager) (ops : List MvccOp) : MvccManager := ops.foldl step m

/-- `txnId` may still roll back: it is active, or `beginTransaction` has yet to hand it out. -/
def Open (m : MvccManager) (txnId : ℕ) : Prop :=
  txnId ∈ m.activeTransactions ∨ m.nextTxnId ≤ txnId

/-- The call writes and deletes under a transaction id that was handed out. -/
def Issued (m : MvccManager) : MvccOp → Prop
  | .writeNode _ _ txnId => txnId < m.nextTxnId
  | .deleteNode _ txnId => txnId < m.nextTxnId
  | _ => True

/-- The call does not collect, and rolls back a transaction only while it is active. -/
def Quiet (m : MvccManager) : MvccOp → Prop
  | .rollback txnId => txnId ∈ m.activeTransactions
  | .gc => False
  | _ => True

instance (m : MvccManager) : ∀ op : MvccOp, Decidable (m.Issued op)
  | .writeNode _ _ txnId | .deleteNode _ txnId => inferInstanceAs (Decidable (txnId < m.nextTxnId))
  | .beginTransaction | .beginSnapshot | .commit _ | .rollback _ | .gc => .isTrue trivial

instance (m : MvccManager) : ∀ op : MvccOp, Decidable (m.Quiet op)
  | .rollback txnId => inferInstanceAs (Decidable (txnId ∈ m.activeTransactions))
  | .gc => .isFalse id
  | .beginTransaction | .beginSnapshot | .commit _ | .writeNode .. | .deleteNode .. => .isTrue trivial

/-! ## What a call does to the counters -/

theorem clock_le_step (m : MvccManager) (op : MvccOp) : m.clock ≤ (m.step op).clock := by
  cases op <;> simp [step, beginTransaction, beginSnapshot, writeNode, deleteNode, commit, rollback,
    gc, tick]

theorem nextTxnId_le_step (m : MvccManager) (op : MvccOp) :
    m.nextTxnId ≤ (m.step op).nextTxnId := by
  cases op <;> simp [step, beginTransaction, beginSnapshot, writeNode, deleteNode, commit, rollback,
    gc, tick]

/-- No transaction that is over becomes open again. -/
theorem Open.of_step {m : MvccManager} {op : MvccOp} {t : ℕ} (h : (m.step op).Open t) :
    m.Open t := by
  unfold Open at h ⊢
  cases op with
  | beginTransaction =>
    simp only [step, beginTransaction, HashSet.mem_add] at h
    rcases h with (rfl | hmem) | hle
    · exact Or.inr le_rfl
    · exact Or.inl hmem
    · exact Or.inr (Nat.le_of_succ_le hle)
  | commit txnId =>
    simp only [step, commit, HashSet.mem_remove] at h
    exact h.imp_left And.right
  | rollback txnId =>
    simp only [step, rollback, HashSet.mem_remove] at h
    exact h.imp_left And.right
  | beginSnapshot => exact h
  | writeNode nodeId data txnId => exact h
  | deleteNode nodeId txnId => exact h
  | gc => exact h

/-! ## What a call does to a version -/

/-- A version in a marked chain was there before, unmarked or as it is. -/
theorem mem_markNewest {ts txnId : ℕ} {vs : List NodeVersion} {v : NodeVersion}
    (h : v ∈ markNewest ts txnId vs) :
    v ∈ vs ∨ ∃ w ∈ vs, w.deletedAt = none ∧
      v = { w with deletedAt := some ts, deleterTxn := some txnId } := by
  unfold markNewest at h
  rw [List.mem_reverse] at h
  have hrev : ∀ l : List NodeVersion,
      v ∈ l.lookmap (markDeleted ts txnId) →
      v ∈ l ∨ ∃ w ∈ l, w.deletedAt = none ∧
        v = { w with deletedAt := some ts, deleterTxn := some txnId } := by
    intro l
    induction l with
    | nil => simp
    | cons w l ih =>
      intro hv
      cases hw : w.deletedAt with
      | none =>
        rw [List.lookmap_cons_some _ _ (markDeleted_live hw ts txnId)] at hv
        rcases List.mem_cons.mp hv with rfl | hv
        · exact Or.inr ⟨w, by simp, hw, rfl⟩
        · exact Or.inl (List.mem_cons_of_mem _ hv)
      | some d =>
        rw [List.lookmap_cons_none _ _ (markDeleted_deleted hw ts txnId)] at hv
        rcases List.mem_cons.mp hv with rfl | hv
        · exact Or.inl (by simp)
        · rcases ih hv with hmem | ⟨w', hw', hrest⟩
          · exact Or.inl (List.mem_cons_of_mem _ hmem)
          · exact Or.inr ⟨w', List.mem_cons_of_mem _ hw', hrest⟩
  simpa using hrev vs.reverse h

/-- What a rollback leaves of a chain. -/
theorem mem_undoChain {txnId : ℕ} {vs : List NodeVersion} {v : NodeVersion} :
    v ∈ undoChain txnId vs ↔ v.txnId ≠ txnId ∧ ∃ w ∈ vs, v = undoDelete txnId w := by
  unfold undoChain
  simp only [List.mem_filter, List.mem_map, decide_eq_true_eq]
  constructor
  · rintro ⟨⟨w, hw, rfl⟩, hne⟩
    exact ⟨hne, w, hw, rfl⟩
  · rintro ⟨hne, w, hw, rfl⟩
    exact ⟨⟨w, hw, rfl⟩, hne⟩

/-- `gc` keeps versions of the chain. -/
theorem mem_retained {watermark : ℕ} {vs : List NodeVersion} {v : NodeVersion}
    (h : v ∈ retained watermark vs) : v ∈ vs := by
  induction vs with
  | nil => exact h
  | cons w vs ih =>
    unfold retained at h
    split at h
    · exact List.mem_cons_of_mem _ (ih h)
    · rcases List.mem_cons.mp h with rfl | h
      · simp
      · exact List.mem_cons_of_mem _ (ih h)

theorem mem_collect {watermark : ℕ} {vs : List NodeVersion} {v : NodeVersion}
    (h : v ∈ collect watermark vs) : v ∈ vs :=
  List.mem_mergeSort.mp (mem_retained h)

/-- A version is an earlier one, possibly with other marks. -/
structure SameVersion (v w : NodeVersion) : Prop where
  txnId : v.txnId = w.txnId
  createdAt : v.createdAt = w.createdAt
  data : v.data = w.data

/-- Where a version comes from: it was written by this call, or it was there before, with the same
marks, with its marks taken away, or marked by this call. -/
theorem mem_versions_step {m : MvccManager} {op : MvccOp} {n : UInt64} {v : NodeVersion}
    (h : v ∈ (m.step op).versions n) :
    (∃ data t, op = .writeNode n data t ∧ v = ⟨t, m.clock, none, none, data⟩) ∨
    ∃ w ∈ m.versions n, SameVersion v w ∧
      (v.deletedAt = w.deletedAt ∧ v.deleterTxn = w.deleterTxn ∨
        v.deletedAt = none ∧ v.deleterTxn = none ∨
        ∃ t, op = .deleteNode n t ∧ w.deletedAt = none ∧ v.deletedAt = some m.clock ∧
          v.deleterTxn = some t) := by
  have hold : v ∈ m.versions n → ∃ w ∈ m.versions n, SameVersion v w ∧
      (v.deletedAt = w.deletedAt ∧ v.deleterTxn = w.deleterTxn ∨
        v.deletedAt = none ∧ v.deleterTxn = none ∨
        ∃ t, op = .deleteNode n t ∧ w.deletedAt = none ∧ v.deletedAt = some m.clock ∧
          v.deleterTxn = some t) :=
    fun hv => ⟨v, hv, ⟨rfl, rfl, rfl⟩, Or.inl ⟨rfl, rfl⟩⟩
  cases op with
  | beginTransaction => exact Or.inr (hold h)
  | beginSnapshot => exact Or.inr (hold h)
  | commit txnId => exact Or.inr (hold h)
  | writeNode nodeId data txnId =>
    simp only [step, versions_writeNode] at h
    split at h
    · next hn =>
      subst hn
      rcases List.mem_append.mp h with h | h
      · exact Or.inr (hold h)
      · rw [List.mem_singleton] at h
        exact Or.inl ⟨data, txnId, rfl, h⟩
    · exact Or.inr (hold h)
  | deleteNode nodeId txnId =>
    simp only [step, versions_deleteNode] at h
    split at h
    · next hn =>
      subst hn
      rcases mem_markNewest h with h | ⟨w, hw, hlive, rfl⟩
      · exact Or.inr (hold h)
      · exact Or.inr ⟨w, hw, ⟨rfl, rfl, rfl⟩, Or.inr (Or.inr ⟨txnId, rfl, hlive, rfl, rfl⟩)⟩
    · exact Or.inr (hold h)
  | rollback txnId =>
    simp only [step, versions_rollback] at h
    obtain ⟨-, w, hw, rfl⟩ := mem_undoChain.mp h
    refine Or.inr ⟨w, hw, ?_⟩
    unfold undoDelete
    split
    · exact ⟨⟨rfl, rfl, rfl⟩, Or.inr (Or.inl ⟨rfl, rfl⟩)⟩
    · exact ⟨⟨rfl, rfl, rfl⟩, Or.inl ⟨rfl, rfl⟩⟩
  | gc =>
    simp only [step, versions_gc] at h
    exact Or.inr (hold (mem_collect h))

/-! ## Versions of transactions that were begun -/

/-- Every version was written, and every mark made, under a transaction id that was handed out. -/
def AllIssued (m : MvccManager) : Prop :=
  ∀ n, ∀ v ∈ m.versions n,
    v.txnId < m.nextTxnId ∧ ∀ t, v.deleterTxn = some t → t < m.nextTxnId

theorem allIssued_new : new.AllIssued := by
  intro n v hv
  simp at hv

theorem AllIssued.step {m : MvccManager} {op : MvccOp} (h : m.AllIssued) (hop : m.Issued op) :
    (m.step op).AllIssued := by
  intro n v hv
  have hle := nextTxnId_le_step m op
  rcases mem_versions_step hv with ⟨data, t, rfl, rfl⟩ | ⟨w, hw, hsame, hmarks⟩
  · exact ⟨lt_of_lt_of_le hop hle, by simp⟩
  · obtain ⟨hcreator, hdeleter⟩ := h n w hw
    refine ⟨hsame.txnId ▸ lt_of_lt_of_le hcreator hle, fun t ht => ?_⟩
    rcases hmarks with ⟨-, heq⟩ | ⟨-, hnone⟩ | ⟨t', rfl, -, -, heq⟩
    · exact lt_of_lt_of_le (hdeleter t (heq ▸ ht)) hle
    · simp [hnone] at ht
    · obtain rfl : t' = t := by simpa [heq] using ht
      exact lt_of_lt_of_le hop hle

theorem AllIssued.run {m : MvccManager} {ops : List MvccOp} (h : m.AllIssued)
    (hops : GuardedRun.Along MvccManager.step Issued m ops) : (m.run ops).AllIssued :=
  GuardedRun.inv_foldl (fun _ _ hm hop => hm.step hop) h hops

/-! ## Time stamps -/

/-- The clock is ahead of every time stamp, and a version has a deletion time when it has a
deleter. -/
structure Stamped (m : MvccManager) : Prop where
  created : ∀ n, ∀ v ∈ m.versions n, v.createdAt < m.clock
  deleted : ∀ n, ∀ v ∈ m.versions n, ∀ d, v.deletedAt = some d → d < m.clock
  live : ∀ n, ∀ v ∈ m.versions n, v.deletedAt = none ↔ v.deleterTxn = none

theorem stamped_new : new.Stamped :=
  ⟨fun n v hv => by simp at hv, fun n v hv => by simp at hv, fun n v hv => by simp at hv⟩

theorem Stamped.step {m : MvccManager} (h : m.Stamped) (op : MvccOp) : (m.step op).Stamped := by
  have hle := clock_le_step m op
  refine ⟨fun n v hv => ?_, fun n v hv d hd => ?_, fun n v hv => ?_⟩
  · rcases mem_versions_step hv with ⟨data, t, rfl, rfl⟩ | ⟨w, hw, hsame, -⟩
    · exact Nat.lt_succ_self m.clock
    · rw [hsame.createdAt]
      exact lt_of_lt_of_le (h.created n w hw) hle
  · rcases mem_versions_step hv with ⟨data, t, rfl, rfl⟩ | ⟨w, hw, -, hmarks⟩
    · simp at hd
    · rcases hmarks with ⟨hat, -⟩ | ⟨hnone, -⟩ | ⟨t, rfl, -, hat, -⟩
      · exact lt_of_lt_of_le (h.deleted n w hw d (hat ▸ hd)) hle
      · simp [hnone] at hd
      · obtain rfl : m.clock = d := by simpa [hat] using hd
        exact Nat.lt_succ_self m.clock
  · rcases mem_versions_step hv with ⟨data, t, rfl, rfl⟩ | ⟨w, hw, -, hmarks⟩
    · simp
    · rcases hmarks with ⟨hat, heq⟩ | ⟨hat, heq⟩ | ⟨t, -, -, hat, heq⟩
      · rw [hat, heq]
        exact h.live n w hw
      · simp [hat, heq]
      · simp [hat, heq]

theorem Stamped.run {m : MvccManager} (h : m.Stamped) (ops : List MvccOp) :
    (m.run ops).Stamped := by
  unfold MvccManager.run
  induction ops generalizing m with
  | nil => exact h
  | cons op ops ih => exact ih (h.step op)

/-! ## What a snapshot is shielded from -/

/-- The snapshot sees no version and no mark of a transaction that may still roll back. -/
structure Shields (m : MvccManager) (s : MvccSnapshot) : Prop where
  clock : s.snapshotId < m.clock
  creator : ∀ n, ∀ v ∈ m.versions n, m.Open v.txnId →
    v.txnId ∈ s.activeTxns ∨ s.snapshotId < v.createdAt
  deleter : ∀ n, ∀ v ∈ m.versions n, ∀ t, v.deleterTxn = some t → m.Open t →
    t ∈ s.activeTxns ∨ ∃ d, v.deletedAt = some d ∧ s.snapshotId < d

/-- A snapshot is shielded when it is taken. -/
theorem AllIssued.shields {m : MvccManager} (h : m.AllIssued) :
    Shields m.beginSnapshot.2 m.beginSnapshot.1 := by
  refine ⟨Nat.lt_succ_self _, fun n v hv hopen => ?_, fun n v hv t ht hopen => ?_⟩
  · rcases hopen with hactive | hle
    · exact Or.inl hactive
    · exact absurd (h n v hv).1 (Nat.not_lt.mpr hle)
  · rcases hopen with hactive | hle
    · exact Or.inl hactive
    · exact absurd ((h n v hv).2 t ht) (Nat.not_lt.mpr hle)

/-- Every call keeps a snapshot shielded. -/
theorem Shields.step {m : MvccManager} {s : MvccSnapshot} (h : Shields m s) (op : MvccOp) :
    Shields (m.step op) s := by
  refine ⟨lt_of_lt_of_le h.clock (clock_le_step m op), fun n v hv hopen => ?_,
    fun n v hv t ht hopen => ?_⟩
  · rcases mem_versions_step hv with ⟨data, t, rfl, rfl⟩ | ⟨w, hw, hsame, -⟩
    · exact Or.inr h.clock
    · have hw' := h.creator n w hw (hsame.txnId ▸ hopen.of_step)
      rwa [hsame.txnId, hsame.createdAt]
  · rcases mem_versions_step hv with ⟨data, t', rfl, rfl⟩ | ⟨w, hw, -, hmarks⟩
    · simp at ht
    · rcases hmarks with ⟨hat, heq⟩ | ⟨-, hnone⟩ | ⟨t', rfl, -, hat, -⟩
      · have hw' := h.deleter n w hw t (heq ▸ ht) hopen.of_step
        rwa [hat]
      · simp [hnone] at ht
      · exact Or.inr ⟨m.clock, hat, h.clock⟩

theorem Shields.run {m : MvccManager} {s : MvccSnapshot} (h : Shields m s) (ops : List MvccOp) :
    Shields (m.run ops) s := by
  unfold MvccManager.run
  induction ops generalizing m with
  | nil => exact h
  | cons op ops ih => exact ih (h.step op)

/-! ## What a snapshot sees stays the same -/

/-- A version written after the snapshot is not seen. -/
theorem seeAs_of_lt {s : MvccSnapshot} {v : NodeVersion} (h : s.snapshotId < v.createdAt) :
    s.seeAs v = none := by
  simp [MvccSnapshot.seeAs, MvccSnapshot.isVisible, h]

/-- A version of a transaction that was active is not seen. -/
theorem seeAs_of_active {s : MvccSnapshot} {v : NodeVersion} (h : v.txnId ∈ s.activeTxns) :
    s.seeAs v = none := by
  simp [MvccSnapshot.seeAs, MvccSnapshot.isVisible, h]

/-- A mark made after the snapshot, or by a transaction that was active, does not count. -/
theorem seeAs_marked {s : MvccSnapshot} {v : NodeVersion} {ts t : ℕ}
    (h : t ∈ s.activeTxns ∨ s.snapshotId < ts) :
    s.seeAs { v with deletedAt := some ts, deleterTxn := some t } =
      s.seeAs { v with deletedAt := none, deleterTxn := none } := by
  have hcount : (decide (t ∈ s.activeTxns) || decide (s.snapshotId < ts)) = true := by simpa using h
  simp only [MvccSnapshot.seeAs, MvccSnapshot.isVisible, hcount]

/-- A version that is not deleted is seen the same whatever its `deleterTxn` says. -/
theorem seeAs_live {s : MvccSnapshot} {v : NodeVersion} (h : v.deletedAt = none) :
    s.seeAs v = s.seeAs { v with deletedAt := none, deleterTxn := none } := by
  simp only [MvccSnapshot.seeAs, MvccSnapshot.isVisible, h]

/-- A delete after the snapshot changes nothing for it. -/
theorem seen_markNewest {s : MvccSnapshot} {ts t : ℕ} (h : s.snapshotId < ts)
    (vs : List NodeVersion) : s.seen (markNewest ts t vs) = s.seen vs := by
  have hfilter : ∀ l : List NodeVersion,
      (l.lookmap (markDeleted ts t)).filterMap s.seeAs = l.filterMap s.seeAs := by
    intro l
    induction l with
    | nil => rfl
    | cons v l ih =>
      cases hv : v.deletedAt with
      | none =>
        rw [List.lookmap_cons_some _ _ (markDeleted_live hv ts t), List.filterMap_cons,
          List.filterMap_cons, seeAs_marked (Or.inr h), seeAs_live hv]
      | some d =>
        rw [List.lookmap_cons_none _ _ (markDeleted_deleted hv ts t), List.filterMap_cons,
          List.filterMap_cons, ih]
  unfold MvccSnapshot.seen markNewest
  rw [List.filterMap_reverse, hfilter, List.filterMap_reverse, List.reverse_reverse]

/-- Undoing a transaction the snapshot is shielded from changes nothing for it. -/
theorem seen_undoChain {s : MvccSnapshot} {t : ℕ} {vs : List NodeVersion}
    (hcreator : ∀ v ∈ vs, v.txnId = t → t ∈ s.activeTxns ∨ s.snapshotId < v.createdAt)
    (hdeleter : ∀ v ∈ vs, v.deleterTxn = some t →
      t ∈ s.activeTxns ∨ ∃ d, v.deletedAt = some d ∧ s.snapshotId < d) :
    s.seen (undoChain t vs) = s.seen vs := by
  unfold MvccSnapshot.seen undoChain
  induction vs with
  | nil => rfl
  | cons v vs ih =>
    have htail := ih (fun w hw => hcreator w (List.mem_cons_of_mem _ hw))
      (fun w hw => hdeleter w (List.mem_cons_of_mem _ hw))
    have hsee : s.seeAs (undoDelete t v) = s.seeAs v := by
      unfold undoDelete
      split
      · next hmark =>
        obtain ⟨txnId, createdAt, deletedAt, deleterTxn, data⟩ := v
        obtain rfl : deleterTxn = some t := hmark
        cases deletedAt with
        | none => exact (seeAs_live rfl).symm
        | some d =>
          have hhidden : t ∈ s.activeTxns ∨ s.snapshotId < d := by
            simpa using hdeleter _ (List.mem_cons_self ..) rfl
          exact (seeAs_marked (v := ⟨txnId, createdAt, none, none, data⟩) hhidden).symm
      · rfl
    have htxn : (undoDelete t v).txnId = v.txnId := by
      unfold undoDelete
      split <;> rfl
    rw [List.map_cons, List.filter_cons, List.filterMap_cons]
    by_cases hv : v.txnId = t
    · have hnone : s.seeAs v = none := by
        rcases hcreator v (List.mem_cons_self ..) hv with hactive | hlt
        · exact seeAs_of_active (hv ▸ hactive)
        · exact seeAs_of_lt hlt
      rw [if_neg (by simp [htxn, hv]), hnone, htail]
    · rw [if_pos (by simp [htxn, hv]), List.filterMap_cons, hsee, htail]

/-- A quiet call does not change what a shielded snapshot sees. -/
theorem Shields.seen_step {m : MvccManager} {s : MvccSnapshot} {op : MvccOp} (h : Shields m s)
    (hop : m.Quiet op) (n : UInt64) :
    s.seen ((m.step op).versions n) = s.seen (m.versions n) := by
  cases op with
  | beginTransaction => rfl
  | beginSnapshot => rfl
  | commit txnId => rfl
  | gc => exact hop.elim
  | writeNode nodeId data txnId =>
    simp only [MvccManager.step, versions_writeNode]
    split
    · have hnew : s.seeAs ⟨txnId, m.clock, none, none, data⟩ = none := seeAs_of_lt h.clock
      simp [MvccSnapshot.seen, hnew]
    · rfl
  | deleteNode nodeId txnId =>
    simp only [MvccManager.step, versions_deleteNode]
    split
    · exact seen_markNewest h.clock _
    · rfl
  | rollback txnId =>
    simp only [MvccManager.step, versions_rollback]
    refine seen_undoChain (fun v hv ht => ?_) (fun v hv ht => ?_)
    · subst ht
      exact h.creator n v hv (Or.inl hop)
    · exact h.deleter n v hv txnId ht (Or.inl hop)

/-- Nor does a quiet run. -/
theorem Shields.seen_run {m : MvccManager} {s : MvccSnapshot} {ops : List MvccOp} (h : Shields m s)
    (hops : GuardedRun.Along MvccManager.step Quiet m ops) (n : UInt64) :
    s.seen ((m.run ops).versions n) = s.seen (m.versions n) := by
  unfold MvccManager.run
  induction ops generalizing m with
  | nil => rfl
  | cons op ops ih =>
    rw [List.foldl_cons, ih (h.step op) hops.2]
    exact h.seen_step hops.1 n

end MvccManager

/-! ## Stability -/

/-- A node with a label and no properties. -/
def NodeData.labelled (label : String) : NodeData := ⟨label, ∅⟩

end Maharit.Mvcc
