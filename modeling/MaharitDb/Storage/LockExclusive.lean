import MaharitDb.Storage.LockSteps

/-!
# Write locks are exclusive

The mode of an entry and its set of holders are kept apart in the lock table.  The invariant
`LockInfo.Exclusive` relates them: a lock in mode `Write` has at most one holder.  A transaction that
was granted a write lock stays a holder, and the mode stays `Write`, until it releases the lock
(`WriteGranted.entry`); so nobody else holds the lock in the meantime (`lock_exclusive`).
-/

namespace Maharit

namespace LockInfo

/-- In mode `Write` there is at most one holder. -/
def Exclusive (info : LockInfo) : Prop :=
  info.mode = .write → ∀ t ∈ info.holders, ∀ u ∈ info.holders, t = u

lemma exclusive_new : new.Exclusive := by
  intro h
  cases h

/-- The sole holder of a lock. -/
lemma eq_of_length_one {s : HashSet TxId} (h : s.toList.length = 1) {t u : TxId} (ht : t ∈ s)
    (hu : u ∈ s) : t = u := by
  obtain ⟨x, hx⟩ := List.length_eq_one_iff.mp h
  have hall : ∀ y ∈ s, y = x := by
    intro y hy
    have hmem : y ∈ s.toList := hy
    rwa [hx, List.mem_singleton] at hmem
  rw [hall t ht, hall u hu]

lemma length_le_one {s : HashSet TxId} (h : ∀ t ∈ s, ∀ u ∈ s, t = u) : s.toList.length ≤ 1 := by
  have hnodup := HashSet.nodup_toList s
  have hall : ∀ t ∈ s.toList, ∀ u ∈ s.toList, t = u := h
  rcases hlist : s.toList with _ | ⟨t, _ | ⟨u, rest⟩⟩
  · simp
  · simp
  · rw [hlist] at hnodup hall
    have heq : t = u := hall t (by simp) u (by simp)
    simp [heq] at hnodup

/-- When a lock that others hold is granted, it is shared. -/
lemma mode_of_canGrant {info : LockInfo} {mode : LockMode} {tx u : TxId}
    (h : info.canGrant mode tx) (hu : u ∈ info.holders) (htx : tx ∉ info.holders) :
    info.mode = .read ∧ mode = .read := by
  have hheld : ¬ info.holders.toList.isEmpty := fun hempty => isEmpty_toList.mp hempty u hu
  simp only [canGrant, hheld, Bool.false_eq_true, if_false, htx] at h
  cases hinfo : info.mode <;> cases mode <;> simp_all

/-- A holder is granted the write lock when it is the only one. -/
lemma eq_of_canGrant_write {info : LockInfo} {tx t u : TxId} (h : info.canGrant .write tx)
    (htx : tx ∈ info.holders) (ht : t ∈ info.holders) (hu : u ∈ info.holders) : t = u := by
  have hheld : ¬ info.holders.toList.isEmpty := fun hempty => isEmpty_toList.mp hempty tx htx
  have hlength : info.holders.toList.length = 1 := by
    simpa [canGrant, hheld, htx] using h
  exact eq_of_length_one hlength ht hu

lemma Exclusive.grant {info : LockInfo} (h : info.Exclusive) {mode : LockMode} {tx : TxId}
    (hgrant : info.canGrant mode tx) : (info.grant mode tx).Exclusive := by
  intro hwrite t ht u hu
  rw [mem_holders_grant] at ht hu
  by_cases hempty : info.holders.toList.isEmpty
  · have hnone := isEmpty_toList.mp hempty
    rcases ht with rfl | ht
    · rcases hu with rfl | hu
      · rfl
      · exact absurd hu (hnone u)
    · exact absurd ht (hnone t)
  · obtain ⟨v, hv⟩ : ∃ v, v ∈ info.holders := by
      by_contra hall
      exact hempty (isEmpty_toList.mpr (by simpa using hall))
    by_cases htx : tx ∈ info.holders
    · have hold : ∀ w, w = tx ∨ w ∈ info.holders → w ∈ info.holders := by
        rintro w (rfl | hw)
        · exact htx
        · exact hw
      cases mode with
      | write => exact eq_of_canGrant_write hgrant htx (hold t ht) (hold u hu)
      | read =>
        -- a holder that asks for the read lock keeps the mode
        have hmode : info.mode = .write := by simpa [LockInfo.grant, hempty] using hwrite
        exact h hmode t (hold t ht) u (hold u hu)
    · obtain ⟨hinfo, rfl⟩ := mode_of_canGrant hgrant hv htx
      simp [LockInfo.grant, hempty, hinfo] at hwrite

lemma Exclusive.release {info : LockInfo} (h : info.Exclusive) (tx : TxId) :
    (info.release tx).Exclusive := by
  intro hwrite t ht u hu
  cases hover : info.handover tx with
  | none =>
    rw [release_of_handover_none hover] at hwrite ht hu
    exact h hwrite t ((HashSet.mem_remove _ _ _).mp ht).2 u ((HashSet.mem_remove _ _ _).mp hu).2
  | some w =>
    -- the waiter is the only holder
    obtain ⟨hempty, -, hrelease⟩ := @release_of_handover_some _ _ w.1 w.2 hover
    rw [hrelease] at ht hu
    have hsole : ∀ v, v ∈ (info.holders.remove tx).add w.1 → v = w.1 := by
      intro v hv
      rcases (HashSet.mem_add _ _ _).mp hv with rfl | hv
      · rfl
      · exact absurd hv (hempty v)
    rw [hsole t ht, hsole u hu]

end LockInfo

namespace LockSystem

/-- A change of an entry keeps write locks exclusive. -/
lemma EntryChange.exclusive {s : LockSystem} {e : LockStep} {r : String} {info : LockInfo}
    (h : s.EntryChange e r info) (hs : (s.entry r).Exclusive) : info.Exclusive := by
  cases h with
  | same => exact hs
  | granted thread c _ _ _ _ hgrant => exact hs.grant hgrant
  | enqueued thread c =>
    intro hwrite
    rw [LockInfo.mode_enqueue] at hwrite
    rw [LockInfo.holders_enqueue]
    exact hs hwrite
  | dequeued thread c => exact hs
  | released tx => exact hs.release tx

lemma exclusive_run (steps : List LockStep) (r : String) : ((run steps).entry r).Exclusive := by
  induction steps using List.reverseRecOn with
  | nil => exact LockInfo.exclusive_new
  | append_singleton steps e ih =>
    rw [run_concat]
    exact (entry_step (run steps) e r).exclusive ih

/-- The transaction was granted the write lock of the resource in the run and has not released it
since. -/
def WriteGranted (steps : List LockStep) (tx : TxId) (r : String) : Prop :=
  ∃ before e after, steps = before ++ e :: after ∧ (run before).Grants e tx r .write ∧
    ∀ mid e' rest, after = mid ++ e' :: rest → ¬ (run (before ++ e :: mid)).Releases e' tx r

/-- The last step granted the lock, or it was granted before and the last step did not release it. -/
lemma WriteGranted.concat {steps : List LockStep} {e : LockStep} {tx : TxId} {r : String}
    (h : WriteGranted (steps ++ [e]) tx r) :
    (run steps).Grants e tx r .write ∨ WriteGranted steps tx r ∧ ¬ (run steps).Releases e tx r := by
  obtain ⟨before, e₀, after, hsteps, hgrant, hkept⟩ := h
  rcases List.eq_nil_or_concat after with rfl | ⟨after, last, rfl⟩
  · obtain ⟨rfl, hlast⟩ := List.append_inj' hsteps rfl
    rw [List.singleton_inj] at hlast
    exact .inl (hlast ▸ hgrant)
  · have hassoc : before ++ e₀ :: (after ++ [last]) = (before ++ e₀ :: after) ++ [last] := by simp
    rw [List.concat_eq_append, hassoc] at hsteps
    obtain ⟨rfl, hlast⟩ := List.append_inj' hsteps rfl
    rw [List.singleton_inj] at hlast
    subst hlast
    refine .inr ⟨⟨before, e₀, after, rfl, hgrant, fun mid e' rest hafter => ?_⟩, ?_⟩
    · exact hkept mid e' (rest ++ [e]) (by simp [hafter])
    · exact hkept after e [] (by simp)

/-- A step that grants a write lock leaves the transaction a holder, in mode `Write`. -/
lemma entry_of_grants {s : LockSystem} {e : LockStep} {tx : TxId} {r : String}
    (h : s.Grants e tx r .write) :
    tx ∈ ((s.step e).entry r).holders ∧ ((s.step e).entry r).mode = .write := by
  rcases h with ⟨thread, c, rfl, hcall, rfl, rfl, hmode, hresult⟩ | ⟨tx', hrel, hover⟩
  · have hentry : (s.step (.iterate thread)).entry c.resource =
        (s.entry c.resource).grant .write c.tx := by
      have hiterate := step_iterate hcall
      generalize s.step (.iterate thread) = s' at hiterate ⊢
      rw [← hmode] at hresult ⊢
      rcases hiterate with hdead | ⟨hsafe, hgrant⟩ | ⟨hsafe, hwait⟩
      · simp [TransactionManager.acquireIteration, hdead] at hresult
      · simp [entry]
      · rw [entry] at hwait
        simp [TransactionManager.acquireIteration, hsafe, hwait] at hresult
    rw [hentry]
    exact ⟨LockInfo.mem_holders_grant.mpr (.inl rfl), by simp [LockInfo.grant]⟩
  · rw [entry_of_releases hrel, (LockInfo.release_of_handover_some hover).2.2]
    exact ⟨(HashSet.mem_add _ _ _).mpr (.inl rfl), rfl⟩

/-- A change that does not release the write lock of a holder keeps the holder and the mode. -/
lemma EntryChange.keeps_write {s : LockSystem} {e : LockStep} {r : String} {info : LockInfo}
    (h : s.EntryChange e r info) {tx : TxId} (hrel : ¬ s.Releases e tx r)
    (htx : tx ∈ (s.entry r).holders) (hwrite : (s.entry r).mode = .write) :
    tx ∈ info.holders ∧ info.mode = .write := by
  cases h with
  | same => exact ⟨htx, hwrite⟩
  | granted thread c _ _ _ _ _ =>
    have hheld : ¬ (s.entry r).holders.toList.isEmpty :=
      fun hempty => LockInfo.isEmpty_toList.mp hempty tx htx
    refine ⟨LockInfo.mem_holders_grant.mpr (.inr htx), ?_⟩
    by_cases hmode : c.mode = .write
    · simp [LockInfo.grant, hmode]
    · simpa [LockInfo.grant, hmode, hheld] using hwrite
  | enqueued thread c => simpa using ⟨htx, hwrite⟩
  | dequeued thread c => exact ⟨htx, hwrite⟩
  | released tx' hrel' =>
    have hne : tx ≠ tx' := by
      rintro rfl
      exact hrel hrel'
    have hmem : tx ∈ (s.entry r).holders.remove tx' := (HashSet.mem_remove _ _ _).mpr ⟨hne, htx⟩
    refine ⟨?_, (LockInfo.mode_release htx hne).trans hwrite⟩
    cases hover : (s.entry r).handover tx' with
    | none =>
      rw [LockInfo.release_of_handover_none hover]
      exact hmem
    | some w =>
      have hempty := (@LockInfo.release_of_handover_some _ _ w.1 w.2 hover).1
      exact absurd hmem (hempty tx)

/-- Until it is released, a write lock keeps its holder and its mode. -/
lemma WriteGranted.entry {steps : List LockStep} {tx : TxId} {r : String}
    (h : WriteGranted steps tx r) :
    tx ∈ ((run steps).entry r).holders ∧ ((run steps).entry r).mode = .write := by
  induction steps using List.reverseRecOn with
  | nil =>
    obtain ⟨before, e, after, hsteps, -⟩ := h
    simp at hsteps
  | append_singleton steps e ih =>
    rw [run_concat]
    rcases h.concat with hgrant | ⟨hgranted, hrel⟩
    · exact entry_of_grants hgrant
    · obtain ⟨htx, hwrite⟩ := ih hgranted
      exact (entry_step (run steps) e r).keeps_write hrel htx hwrite

/-- In every run a lock in mode `Write` has at most one holder, and while a transaction has a write
lock, no other one holds the lock. -/
theorem lock_exclusive (steps : List LockStep) (r : String) (info : LockInfo)
    (h : (run steps).manager.locks.lookup r = some info) :
    (info.mode = .write → info.holders.toList.length ≤ 1) ∧
      ∀ t ∈ info.holders, ∀ u ∈ info.holders, WriteGranted steps t r ∨ WriteGranted steps u r →
        t = u := by
  have hentry : (run steps).entry r = info := by rw [entry, h, Option.getD_some]
  have hexclusive := exclusive_run steps r
  rw [hentry] at hexclusive
  refine ⟨fun hwrite => LockInfo.length_le_one (hexclusive hwrite), ?_⟩
  intro t ht u hu hgranted
  have hmode : info.mode = .write := by
    rw [← hentry]
    exact hgranted.elim (fun h => h.entry.2) (fun h => h.entry.2)
  exact hexclusive hmode t ht u hu

/-- Two transactions request the write lock of a resource; the first one is granted it. -/
theorem lock_exclusive_two :
    ∃ info, (run [.begin false, .begin false, .acquireLock 0 1 "a" .write, .iterate 0,
        .acquireLock 1 2 "a" .write, .iterate 1]).manager.locks.lookup "a" = some info ∧
      info.mode = .write ∧ info.waiting = [(2, .write)] ∧ info.holders.toList.length ≤ 1 ∧
      1 ∈ info.holders ∧ ∀ u ∈ info.holders, 1 = u := by
  have hentry : ((run [.begin false, .begin false, .acquireLock 0 1 "a" .write, .iterate 0,
      .acquireLock 1 2 "a" .write, .iterate 1]).manager.locks.lookup "a").map
        (fun info => (info.mode, info.waiting, info.holders.toList)) =
      some (.write, [(2, .write)], [1]) := by decide +kernel
  obtain ⟨info, hlookup, hinfo⟩ := Option.map_eq_some_iff.mp hentry
  obtain ⟨hmode, hwaiting, hholders⟩ : info.mode = .write ∧ info.waiting = [(2, .write)] ∧
      info.holders.toList = [1] := by simpa using hinfo
  have hone : 1 ∈ info.holders := by
    rw [← HashSet.mem_toList, hholders]
    exact List.mem_singleton_self 1
  have hgranted : WriteGranted [.begin false, .begin false, .acquireLock 0 1 "a" .write, .iterate 0,
      .acquireLock 1 2 "a" .write, .iterate 1] 1 "a" := by
    refine ⟨[.begin false, .begin false, .acquireLock 0 1 "a" .write], .iterate 0,
      [.acquireLock 1 2 "a" .write, .iterate 1], rfl, ?_, ?_⟩
    · exact .inl ⟨0, ⟨1, "a", .write, false⟩, rfl, by decide +kernel, rfl, rfl, rfl,
        by decide +kernel⟩
    · intro mid e' rest hafter
      have hmem : e' ∈ [LockStep.acquireLock 1 2 "a" .write, .iterate 1] := by simp [hafter]
      rcases List.mem_pair.mp hmem with rfl | rfl <;> exact id
  have hexclusive := lock_exclusive _ "a" info hlookup
  exact ⟨info, hlookup, hmode, hwaiting, hexclusive.1 hmode, hone,
    fun u hu => hexclusive.2 1 hone u hu (.inl hgranted)⟩

end LockSystem

end Maharit
