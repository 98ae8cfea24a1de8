import MaharitDb.Storage.LockTable

/-!
# What a step does to the lock table

`EntryChange` lists what a step can do to the entry of a resource (`entry_step`); `Releases` and
`Grants` say which locks a step releases and grants.
-/

namespace Maharit

namespace LockInfo

@[simp] lemma release_new (tx : TxId) : new.release tx = new := rfl

@[simp] lemma dequeue_new (tx : TxId) : new.dequeue tx = new := rfl

lemma mem_holders_grant {info : LockInfo} {mode : LockMode} {tx u : TxId} :
    u ∈ (info.grant mode tx).holders ↔ u = tx ∨ u ∈ info.holders :=
  HashSet.mem_add _ _ _

lemma mem_waiting_enqueue {info : LockInfo} {mode : LockMode} {tx : TxId} {w : TxId × LockMode} :
    w ∈ (info.enqueue mode tx).waiting → w ∈ info.waiting ∨ w = (tx, mode) := by
  unfold enqueue
  split
  · exact .inl
  · simp

@[simp] lemma holders_enqueue (info : LockInfo) (mode : LockMode) (tx : TxId) :
    (info.enqueue mode tx).holders = info.holders := by
  unfold enqueue
  split <;> rfl

@[simp] lemma mode_enqueue (info : LockInfo) (mode : LockMode) (tx : TxId) :
    (info.enqueue mode tx).mode = info.mode := by
  unfold enqueue
  split <;> rfl

/-- A release takes the holder away, unless the lock is handed to it again. -/
lemma mem_holders_release {info : LockInfo} {tx u : TxId} (h : u ∈ (info.release tx).holders) :
    u ≠ tx ∧ u ∈ info.holders ∨ ∃ mode, (u, mode) ∈ info.waiting := by
  cases hover : info.handover tx with
  | none =>
    rw [release_of_handover_none hover] at h
    exact .inl ((HashSet.mem_remove _ _ _).mp h)
  | some w =>
    obtain ⟨next, mode⟩ := w
    obtain ⟨-, hwaiting, hrelease⟩ := release_of_handover_some hover
    rw [hrelease] at h
    rcases (HashSet.mem_add _ _ _).mp h with rfl | hmem
    · exact .inr ⟨mode, hwaiting⟩
    · exact .inl ((HashSet.mem_remove _ _ _).mp hmem)

lemma mem_waiting_release {info : LockInfo} {tx : TxId} {w : TxId × LockMode}
    (h : w ∈ (info.release tx).waiting) : w ∈ info.waiting := by
  cases hover : info.handover tx with
  | none =>
    rw [release_of_handover_none hover] at h
    exact h
  | some next =>
    rw [(@release_of_handover_some _ _ next.1 next.2 hover).2.2] at h
    exact List.mem_of_mem_tail h

/-- While another transaction holds the lock, a release leaves the mode alone. -/
lemma mode_release {info : LockInfo} {tx u : TxId} (hu : u ∈ info.holders) (hne : u ≠ tx) :
    (info.release tx).mode = info.mode := by
  have hover : info.handover tx = none := by
    cases hover : info.handover tx with
    | none => rfl
    | some next =>
      have hempty := (@release_of_handover_some _ _ next.1 next.2 hover).1
      exact absurd ((HashSet.mem_remove _ _ _).mpr ⟨hne, hu⟩) (hempty u)
  rw [release_of_handover_none hover]

end LockInfo

namespace TransactionManager

/-- The locks after a transaction was closed. -/
lemma lookup_locks_finish (tm : TransactionManager) (tx : TxId) (t : Transaction)
    (state : TransactionState) (r : String) :
    (tm.finish tx t state).locks.lookup r =
      if r ∈ t.heldLocks then (tm.locks.lookup r).map (·.release tx) else tm.locks.lookup r := by
  have hfold : ∀ (held : List String), held.Nodup → ∀ locks : HashMap String LockInfo,
      (held.foldl (fun locks resource => HashMap.modify locks resource (·.release tx)) locks).lookup r =
        if r ∈ held then (locks.lookup r).map (·.release tx) else locks.lookup r := by
    intro held
    induction held with
    | nil => simp
    | cons a held ih =>
      intro hnodup locks
      obtain ⟨hfresh, hrest⟩ := List.nodup_cons.mp hnodup
      rw [List.foldl_cons, ih hrest, HashMap.lookup_modify]
      by_cases hra : r = a
      · subst hra
        simp [hfresh]
      · simp [hra]
  refine (hfold _ (HashSet.nodup_toList t.heldLocks) tm.locks).trans ?_
  by_cases hr : r ∈ t.heldLocks
  · rw [if_pos hr, if_pos (show r ∈ t.heldLocks.toList from hr)]
  · rw [if_neg hr, if_neg (show ¬ r ∈ t.heldLocks.toList from hr)]

lemma finish_transactions (tm : TransactionManager) (tx : TxId) (t : Transaction)
    (state : TransactionState) : (tm.finish tx t state).transactions =
      tm.transactions.insert tx { t with undoLog := [], state := state } := rfl

end TransactionManager

namespace LockSystem

lemma run_concat (steps : List LockStep) (e : LockStep) :
    run (steps ++ [e]) = (run steps).step e := by
  simp [run]

/-- The entry of a resource; without one nobody holds it or waits for it. -/
def entry (s : LockSystem) (resource : String) : LockInfo :=
  (s.manager.locks.lookup resource).getD .new

/-- The step releases the lock that a transaction has on a resource. -/
def Releases (s : LockSystem) : LockStep → TxId → String → Prop
  | .releaseLock tx resource, tx', resource' => tx' = tx ∧ resource' = resource
  | .commit tx, tx', resource | .rollback tx, tx', resource =>
      tx' = tx ∧ ∃ t, s.manager.getActive tx = .ok t ∧ resource ∈ t.heldLocks
  | _, _, _ => False

/-- The step grants a transaction a lock: a call returns, or a released lock goes to a waiter. -/
def Grants (s : LockSystem) (e : LockStep) (tx : TxId) (resource : String) (mode : LockMode) : Prop :=
  (∃ thread c, e = .iterate thread ∧ s.calls thread = some c ∧ c.tx = tx ∧ c.resource = resource ∧
    c.mode = mode ∧ (s.manager.acquireIteration tx resource mode).2 = some (.ok ())) ∨
  ∃ tx', s.Releases e tx' resource ∧ (s.entry resource).handover tx' = some (tx, mode)

/-- What a step can do to the entry of a resource. -/
inductive EntryChange (s : LockSystem) (e : LockStep) (r : String) : LockInfo → Prop
  | same : EntryChange s e r (s.entry r)
  | granted (thread : ℕ) (c : AcquireCall) (hstep : e = .iterate thread)
      (hcall : s.calls thread = some c) (hresource : c.resource = r)
      (hsafe : TransactionManager.wouldCauseDeadlock s.manager.locks c.tx r = false)
      (hgrant : (s.entry r).canGrant c.mode c.tx) :
      EntryChange s e r ((s.entry r).grant c.mode c.tx)
  | enqueued (thread : ℕ) (c : AcquireCall) (hstep : e = .iterate thread)
      (hcall : s.calls thread = some c) (hresource : c.resource = r)
      (hsafe : TransactionManager.wouldCauseDeadlock s.manager.locks c.tx r = false)
      (hwait : (s.entry r).canGrant c.mode c.tx = false) :
      EntryChange s e r ((s.entry r).enqueue c.mode c.tx)
  | dequeued (thread : ℕ) (c : AcquireCall) (hstep : e = .timeout thread)
      (hcall : s.calls thread = some c) (hwaited : c.waited) (hresource : c.resource = r) :
      EntryChange s e r ((s.entry r).dequeue c.tx)
  | released (tx : TxId) (hrel : s.Releases e tx r) : EntryChange s e r ((s.entry r).release tx)

/-- An iteration finds a deadlock, is granted the lock, or waits. -/
inductive Iteration (s : LockSystem) (thread : ℕ) (c : AcquireCall) : LockSystem → Prop
  | deadlock (h : TransactionManager.wouldCauseDeadlock s.manager.locks c.tx c.resource) :
      Iteration s thread c ⟨s.manager, Function.update s.calls thread none⟩
  | granted (hsafe : TransactionManager.wouldCauseDeadlock s.manager.locks c.tx c.resource = false)
      (hgrant : (s.entry c.resource).canGrant c.mode c.tx) :
      Iteration s thread c
        ⟨{ s.manager with
            locks := s.manager.locks.insert c.resource ((s.entry c.resource).grant c.mode c.tx)
            transactions := HashMap.modify s.manager.transactions c.tx fun t =>
              { t with heldLocks := t.heldLocks.add c.resource } },
          Function.update s.calls thread none⟩
  | waits (hsafe : TransactionManager.wouldCauseDeadlock s.manager.locks c.tx c.resource = false)
      (hwait : (s.entry c.resource).canGrant c.mode c.tx = false) :
      Iteration s thread c
        ⟨{ s.manager with
            locks := s.manager.locks.insert c.resource ((s.entry c.resource).enqueue c.mode c.tx) },
          Function.update s.calls thread (some { c with waited := true })⟩

lemma step_iterate {s : LockSystem} {thread : ℕ} {c : AcquireCall} (hcall : s.calls thread = some c) :
    s.Iteration thread c (s.step (.iterate thread)) := by
  simp only [step, hcall]
  by_cases hdead : TransactionManager.wouldCauseDeadlock s.manager.locks c.tx c.resource
  · simp only [TransactionManager.acquireIteration, hdead, if_true]
    exact .deadlock hdead
  · simp only [TransactionManager.acquireIteration, hdead, Bool.false_eq_true, if_false]
    have hentry : (s.manager.locks.lookup c.resource).getD .new = s.entry c.resource := rfl
    rw [hentry]
    by_cases hgrant : (s.entry c.resource).canGrant c.mode c.tx
    · rw [if_pos hgrant]
      exact .granted (by simpa using hdead) hgrant
    · rw [if_neg hgrant]
      exact .waits (by simpa using hdead) (by simpa using hgrant)

lemma step_commit_ok {s : LockSystem} {tx : TxId} {t : Transaction}
    (h : s.manager.getActive tx = .ok t) :
    s.step (.commit tx) = { s with manager := s.manager.finish tx t .committed } := by
  simp [step, TransactionManager.commit, h, bind, Except.bind, pure, Except.pure]

lemma step_commit_error {s : LockSystem} {tx : TxId} {err : TransactionError}
    (h : s.manager.getActive tx = .error err) : s.step (.commit tx) = s := by
  simp [step, TransactionManager.commit, h, bind, Except.bind]

lemma step_rollback_ok {s : LockSystem} {tx : TxId} {t : Transaction}
    (h : s.manager.getActive tx = .ok t) :
    s.step (.rollback tx) = { s with manager := s.manager.finish tx t .rolledBack } := by
  simp [step, TransactionManager.rollbackManager, h, bind, Except.bind, pure, Except.pure]

lemma step_rollback_error {s : LockSystem} {tx : TxId} {err : TransactionError}
    (h : s.manager.getActive tx = .error err) : s.step (.rollback tx) = s := by
  simp [step, TransactionManager.rollbackManager, h, bind, Except.bind]

lemma entry_finish (s : LockSystem) (tx : TxId) (t : Transaction) (state : TransactionState)
    (r : String) : entry { s with manager := s.manager.finish tx t state } r =
      if r ∈ t.heldLocks then (s.entry r).release tx else s.entry r := by
  rw [entry, TransactionManager.lookup_locks_finish, entry]
  split
  · cases s.manager.locks.lookup r <;> rfl
  · rfl

/-- A step that releases the lock of a transaction takes it out of the entry. -/
lemma entry_of_releases {s : LockSystem} {e : LockStep} {tx : TxId} {r : String}
    (h : s.Releases e tx r) : (s.step e).entry r = (s.entry r).release tx := by
  cases e with
  | releaseLock tx' resource =>
    obtain ⟨rfl, rfl⟩ := h
    simp only [entry, step, TransactionManager.releaseLock, HashMap.lookup_modify, if_true]
    cases s.manager.locks.lookup r <;> rfl
  | commit tx' =>
    obtain ⟨rfl, t, hactive, hheld⟩ := h
    rw [step_commit_ok hactive, entry_finish, if_pos hheld]
  | rollback tx' =>
    obtain ⟨rfl, t, hactive, hheld⟩ := h
    rw [step_rollback_ok hactive, entry_finish, if_pos hheld]
  | begin readOnly | acquireLock thread tx resource mode | iterate thread | timeout thread =>
    exact h.elim

/-- What a step does to the entry of a resource is one of these changes. -/
theorem entry_step (s : LockSystem) (e : LockStep) (r : String) :
    EntryChange s e r ((s.step e).entry r) := by
  have hsame : (s.step e).manager.locks.lookup r = s.manager.locks.lookup r →
      EntryChange s e r ((s.step e).entry r) := by
    intro h
    have hentry : (s.step e).entry r = s.entry r := by rw [entry, h, entry]
    rw [hentry]
    exact .same
  cases e with
  | begin readOnly => exact hsame rfl
  | acquireLock thread tx resource mode =>
    refine hsame ?_
    simp only [step]
    split <;> rfl
  | iterate thread =>
    cases hcall : s.calls thread with
    | none => exact hsame (by simp [step, hcall])
    | some c =>
      have hentry : ∀ (tm : TransactionManager) (calls : ℕ → Option AcquireCall) (info : LockInfo),
          tm.locks = s.manager.locks.insert c.resource info →
          (⟨tm, calls⟩ : LockSystem).entry r = if r = c.resource then info else s.entry r := by
        intro tm calls info htm
        rw [entry, htm, HashMap.lookup_insert_ite]
        split <;> rfl
      have hiterate := step_iterate hcall
      generalize s.step (.iterate thread) = s' at hiterate ⊢
      rcases hiterate with hdead | ⟨hsafe, hgrant⟩ | ⟨hsafe, hwait⟩
      · exact .same
      · rw [hentry _ _ _ rfl]
        split
        · next hr =>
          subst hr
          exact .granted thread c rfl hcall rfl hsafe hgrant
        · exact .same
      · rw [hentry _ _ _ rfl]
        split
        · next hr =>
          subst hr
          exact .enqueued thread c rfl hcall rfl hsafe hwait
        · exact .same
  | timeout thread =>
    cases hcall : s.calls thread with
    | none => exact hsame (by simp [step, hcall])
    | some c =>
      by_cases hwaited : c.waited
      · by_cases hr : c.resource = r
        · subst hr
          have hentry : (s.step (.timeout thread)).entry c.resource =
              (s.entry c.resource).dequeue c.tx := by
            simp only [entry, step, hcall, hwaited, if_true, TransactionManager.acquireTimeout,
              HashMap.lookup_modify]
            cases s.manager.locks.lookup c.resource <;> rfl
          rw [hentry]
          exact .dequeued thread c rfl hcall hwaited rfl
        · refine hsame ?_
          have hne : r ≠ c.resource := fun h => hr h.symm
          simp [step, hcall, hwaited, TransactionManager.acquireTimeout, HashMap.lookup_modify, hne]
      · exact hsame (by simp [step, hcall, hwaited])
  | releaseLock tx resource =>
    by_cases hr : r = resource
    · have hrel : s.Releases (.releaseLock tx resource) tx r := ⟨rfl, hr⟩
      rw [entry_of_releases hrel]
      exact .released tx hrel
    · refine hsame ?_
      simp [step, TransactionManager.releaseLock, HashMap.lookup_modify, hr]
  | commit tx =>
    rcases TransactionManager.getActive_cases s.manager tx with ⟨err, herr⟩ | ⟨t, -, -, hactive⟩
    · exact hsame (by rw [step_commit_error herr])
    · rw [step_commit_ok hactive, entry_finish]
      split
      · next hheld => exact .released tx ⟨rfl, t, hactive, hheld⟩
      · exact .same
  | rollback tx =>
    rcases TransactionManager.getActive_cases s.manager tx with ⟨err, herr⟩ | ⟨t, -, -, hactive⟩
    · exact hsame (by rw [step_rollback_error herr])
    · rw [step_rollback_ok hactive, entry_finish]
      split
      · next hheld => exact .released tx ⟨rfl, t, hactive, hheld⟩
      · exact .same

end LockSystem

end Maharit
