import MaharitDb.Lib.GuardedRun
import MaharitDb.Storage.LockSteps

/-!
# The locks of finished transactions

What a transaction is to release is recorded in its `held_locks`, and only a call of `acquire_lock`
that returns `Ok` records anything.  The lock table says more: a transaction can be a holder because
a released lock was handed to it, and it can be in a waiting queue.  `Settled` says that the table is
ahead of the records only where a call is in progress.  A call that ends in another way than by being
granted a lock that was handed to it, or with its transaction still in the queue, breaks this; the
steps that do not are those of `cleans`, and along them finished transactions leave nothing behind
(`finished_leaves_no_lock`).
-/

namespace Maharit

open GuardedRun

namespace TransactionManager

/-- The transaction is running and has the resource among its held locks. -/
def recorded (tm : TransactionManager) (tx : TxId) (r : String) : Bool :=
  (tm.transactions.lookup tx).any fun t => t.state = .active && r ∈ t.heldLocks

/-- The transaction is running (`is_active`). -/
def isActive (tm : TransactionManager) (tx : TxId) : Bool :=
  (tm.transactions.lookup tx).any fun t => t.state = .active

lemma recorded_iff {tm : TransactionManager} {tx : TxId} {r : String} :
    tm.recorded tx r ↔
      ∃ t, tm.transactions.lookup tx = some t ∧ t.state = .active ∧ r ∈ t.heldLocks := by
  simp [recorded, Option.any_eq_true]

end TransactionManager

namespace LockSystem

/-- The step leaves nothing behind that its transaction does not know of: the id of a new transaction
is new; a call that finds a deadlock has no entry in the queue, and no lock was handed to it; a call
that is granted the lock has no entry in the queue, and its transaction is running; no lock was handed
to a call that times out. -/
def cleans (s : LockSystem) : LockStep → Bool
  | .begin _ => (s.manager.transactions.lookup s.manager.nextTxId).isNone
  | .iterate thread =>
      match s.calls thread with
      | none => true
      | some c =>
          let info := s.entry c.resource
          if TransactionManager.wouldCauseDeadlock s.manager.locks c.tx c.resource then
            !info.isWaiting c.tx && (c.tx ∉ info.holders || s.manager.recorded c.tx c.resource)
          else if info.canGrant c.mode c.tx then !info.isWaiting c.tx && s.manager.isActive c.tx
          else true
  | .timeout thread =>
      match s.calls thread with
      | none => true
      | some c => !c.waited || c.tx ∉ (s.entry c.resource).holders || s.manager.recorded c.tx c.resource
  | _ => true

/-- A call of `acquire_lock` is in progress for the transaction and the resource. -/
def Requests (s : LockSystem) (tx : TxId) (r : String) : Prop :=
  ∃ thread c, s.calls thread = some c ∧ c.tx = tx ∧ c.resource = r

/-- A holder has recorded the lock or has a call in progress, and so has a waiter. -/
structure Settled (s : LockSystem) : Prop where
  holders : ∀ r tx, tx ∈ (s.entry r).holders → s.manager.recorded tx r ∨ s.Requests tx r
  waiting : ∀ r w, w ∈ (s.entry r).waiting → s.Requests w.1 r

lemma settled_new : new.Settled where
  holders := by
    intro r tx htx
    exact absurd htx (AList.notMem_empty tx)
  waiting := by
    intro r w hw
    exact absurd hw List.not_mem_nil

section

variable {s : LockSystem}

/-- A call that ends leaves the other calls in progress. -/
lemma Requests.of_end {manager : TransactionManager} {thread : ℕ} {c : AcquireCall}
    (hcall : s.calls thread = some c) {tx : TxId} {r : String} (h : s.Requests tx r) :
    (⟨manager, Function.update s.calls thread none⟩ : LockSystem).Requests tx r ∨
      c.tx = tx ∧ c.resource = r := by
  obtain ⟨thread', c', hcall', htx, hr⟩ := h
  by_cases hthread : thread' = thread
  · subst hthread
    rw [hcall] at hcall'
    cases hcall'
    exact .inr ⟨htx, hr⟩
  · refine .inl ⟨thread', c', ?_, htx, hr⟩
    simpa [Function.update_of_ne hthread] using hcall'

/-- A call that begins or goes on leaves the calls in progress. -/
lemma Requests.of_update {manager : TransactionManager} {thread : ℕ} {c : AcquireCall}
    (hkeep : ∀ c', s.calls thread = some c' → c'.tx = c.tx ∧ c'.resource = c.resource) {tx : TxId}
    {r : String} (h : s.Requests tx r) :
    (⟨manager, Function.update s.calls thread (some c)⟩ : LockSystem).Requests tx r := by
  obtain ⟨thread', c', hcall', htx, hr⟩ := h
  by_cases hthread : thread' = thread
  · subst hthread
    obtain ⟨htx', hr'⟩ := hkeep c' hcall'
    exact ⟨thread', c, Function.update_self .., htx'.symm.trans htx, hr'.symm.trans hr⟩
  · refine ⟨thread', c', ?_, htx, hr⟩
    simpa [Function.update_of_ne hthread] using hcall'

lemma requests_update {manager : TransactionManager} {thread : ℕ} {c : AcquireCall} :
    (⟨manager, Function.update s.calls thread (some c)⟩ : LockSystem).Requests c.tx c.resource :=
  ⟨thread, c, Function.update_self .., rfl, rfl⟩

/-- A call that ends without being granted the lock. -/
lemma Settled.end_call (hs : s.Settled) {thread : ℕ} {c : AcquireCall}
    (hcall : s.calls thread = some c) {manager : TransactionManager}
    (hheld : ∀ tx r, s.manager.recorded tx r → manager.recorded tx r)
    (hentry : ∀ r, entry ⟨manager, Function.update s.calls thread none⟩ r = s.entry r ∨
      entry ⟨manager, Function.update s.calls thread none⟩ r = (s.entry r).dequeue c.tx)
    (hholder : c.tx ∈ (s.entry c.resource).holders → s.manager.recorded c.tx c.resource)
    (hqueue : ∀ mode, (c.tx, mode) ∉
      (entry ⟨manager, Function.update s.calls thread none⟩ c.resource).waiting) :
    Settled ⟨manager, Function.update s.calls thread none⟩ where
  holders := by
    intro r tx htx
    have htx' : tx ∈ (s.entry r).holders := by
      rcases hentry r with h | h <;> rw [h] at htx <;> exact htx
    rcases hs.holders r tx htx' with hrec | hreq
    · exact .inl (hheld tx r hrec)
    · rcases hreq.of_end hcall with hreq | ⟨rfl, rfl⟩
      · exact .inr hreq
      · exact .inl (hheld _ _ (hholder htx'))
  waiting := by
    intro r w hw
    have hw' : w ∈ (s.entry r).waiting := by
      rcases hentry r with h | h <;> rw [h] at hw
      · exact hw
      · exact List.mem_of_mem_filter hw
    rcases (hs.waiting r w hw').of_end hcall with hreq | ⟨htx, hr⟩
    · exact hreq
    · subst hr
      exact absurd (htx ▸ hw) (hqueue w.2)

lemma Settled.begin (hs : s.Settled) {readOnly : Bool}
    (hnew : s.manager.transactions.lookup s.manager.nextTxId = none) :
    (s.step (.begin readOnly)).Settled where
  holders := by
    intro r tx htx
    refine (hs.holders r tx htx).imp (fun hrec => ?_) id
    obtain ⟨t, hlookup, hactive, hheld⟩ := TransactionManager.recorded_iff.mp hrec
    refine TransactionManager.recorded_iff.mpr ⟨t, ?_, hactive, hheld⟩
    have hne : tx ≠ s.manager.nextTxId := by
      rintro rfl
      rw [hnew] at hlookup
      cases hlookup
    simpa [step, TransactionManager.beginWithOptions, HashMap.lookup_insert_ite, hne] using hlookup
  waiting := hs.waiting

/-- Granting a lock records it and keeps what is recorded. -/
lemma recorded_grant {tm : TransactionManager} {locks : HashMap String LockInfo} {tx u : TxId}
    {r r' : String} (h : tm.recorded u r' ∨ u = tx ∧ r' = r ∧ tm.isActive tx) :
    TransactionManager.recorded
      { tm with
        locks := locks
        transactions := HashMap.modify tm.transactions tx fun t =>
          { t with heldLocks := t.heldLocks.add r } } u r' := by
  rw [TransactionManager.recorded_iff]
  simp only [HashMap.lookup_modify]
  rcases h with h | ⟨rfl, rfl, h⟩
  · obtain ⟨t, hlookup, hactive, hheld⟩ := TransactionManager.recorded_iff.mp h
    by_cases hu : u = tx
    · rw [if_pos hu, hlookup]
      exact ⟨_, rfl, hactive, (HashSet.mem_add _ _ _).mpr (.inr hheld)⟩
    · rw [if_neg hu]
      exact ⟨t, hlookup, hactive, hheld⟩
  · obtain ⟨t, hlookup, hactive⟩ : ∃ t, tm.transactions.lookup u = some t ∧ t.state = .active := by
      simpa [TransactionManager.isActive, Option.any_eq_true] using h
    rw [if_pos rfl, hlookup]
    exact ⟨_, rfl, hactive, (HashSet.mem_add _ _ _).mpr (.inl rfl)⟩

lemma Settled.iterate (hs : s.Settled) {thread : ℕ} (hclean : s.cleans (.iterate thread)) :
    (s.step (.iterate thread)).Settled := by
  cases hcall : s.calls thread with
  | none => simpa [step, hcall] using hs
  | some c =>
    have hentry : ∀ (tm : TransactionManager) (calls : ℕ → Option AcquireCall) (info : LockInfo)
        (r : String), tm.locks = s.manager.locks.insert c.resource info →
        (⟨tm, calls⟩ : LockSystem).entry r = if r = c.resource then info else s.entry r := by
      intro tm calls info r htm
      rw [entry, htm, HashMap.lookup_insert_ite]
      split <;> rfl
    simp only [cleans, hcall] at hclean
    have hiterate := step_iterate hcall
    generalize s.step (.iterate thread) = s' at hiterate ⊢
    rcases hiterate with hdead | ⟨hsafe, hgrant⟩ | ⟨hsafe, hwait⟩
    · rw [if_pos hdead] at hclean
      obtain ⟨hqueue, hholder⟩ := Bool.and_eq_true_iff.mp hclean
      refine hs.end_call hcall (fun _ _ h => h) (fun _ => .inl rfl) (fun hmem => ?_) fun mode hmode => ?_
      · simpa [hmem] using hholder
      · have hwaiting : (s.entry c.resource).isWaiting c.tx := LockInfo.isWaiting_iff.mpr ⟨mode, hmode⟩
        simp [hwaiting] at hqueue
    · rw [if_neg (by simp [hsafe]), if_pos hgrant] at hclean
      obtain ⟨hqueue, hactive⟩ := Bool.and_eq_true_iff.mp hclean
      constructor
      · intro r tx htx
        rw [hentry _ _ _ _ rfl] at htx
        have hcases : tx ∈ (s.entry r).holders ∨ tx = c.tx ∧ r = c.resource := by
          split at htx
          · next hr =>
            subst hr
            exact (LockInfo.mem_holders_grant.mp htx).symm.imp id (⟨·, rfl⟩)
          · exact .inl htx
        rcases hcases with htx' | ⟨rfl, rfl⟩
        · rcases hs.holders r tx htx' with hrec | hreq
          · exact .inl (recorded_grant (.inl hrec))
          · rcases hreq.of_end hcall with hreq | ⟨rfl, rfl⟩
            · exact .inr hreq
            · exact .inl (recorded_grant (.inr ⟨rfl, rfl, hactive⟩))
        · exact .inl (recorded_grant (.inr ⟨rfl, rfl, hactive⟩))
      · intro r w hw
        rw [hentry _ _ _ _ rfl] at hw
        have hw' : w ∈ (s.entry r).waiting := by
          split at hw
          · next hr =>
            subst hr
            exact hw
          · exact hw
        rcases (hs.waiting r w hw').of_end hcall with hreq | ⟨htx, rfl⟩
        · exact hreq
        · have hwaiting : (s.entry c.resource).isWaiting c.tx :=
            LockInfo.isWaiting_iff.mpr ⟨w.2, htx ▸ hw'⟩
          simp [hwaiting] at hqueue
    · have hkeep : ∀ c', s.calls thread = some c' →
          c'.tx = { c with waited := true }.tx ∧ c'.resource = { c with waited := true }.resource := by
        intro c' hc'
        rw [hcall] at hc'
        cases hc'
        exact ⟨rfl, rfl⟩
      constructor
      · intro r tx htx
        rw [hentry _ _ _ _ rfl] at htx
        have htx' : tx ∈ (s.entry r).holders := by
          split at htx
          · next hr =>
            subst hr
            simpa using htx
          · exact htx
        exact (hs.holders r tx htx').imp id (Requests.of_update hkeep)
      · intro r w hw
        rw [hentry _ _ _ _ rfl] at hw
        split at hw
        · next hr =>
          subst hr
          rcases LockInfo.mem_waiting_enqueue hw with hw | rfl
          · exact (hs.waiting _ w hw).of_update hkeep
          · exact requests_update (c := { c with waited := true })
        · exact (hs.waiting r w hw).of_update hkeep

lemma Settled.timeout (hs : s.Settled) {thread : ℕ} (hclean : s.cleans (.timeout thread)) :
    (s.step (.timeout thread)).Settled := by
  cases hcall : s.calls thread with
  | none => simpa [step, hcall] using hs
  | some c =>
    by_cases hwaited : c.waited
    · simp only [cleans, hcall, hwaited] at hclean
      have hentry : ∀ calls r, entry ⟨(s.manager.acquireTimeout c.tx c.resource).1, calls⟩ r =
          if r = c.resource then (s.entry r).dequeue c.tx else s.entry r := by
        intro calls r
        simp only [entry, TransactionManager.acquireTimeout, HashMap.lookup_modify]
        split
        · cases s.manager.locks.lookup r <;> rfl
        · rfl
      simp only [step, hcall, hwaited, if_true]
      refine hs.end_call hcall (fun _ _ h => h) (fun r => ?_) (fun hmem => ?_) fun mode => ?_
      · rw [hentry]
        split
        · exact .inr rfl
        · exact .inl rfl
      · simpa [hmem] using hclean
      · rw [hentry, if_pos rfl]
        simp [LockInfo.dequeue]
    · simpa [step, hcall, hwaited] using hs

/-- Locks are released: what the transaction has recorded goes with the entry, and a lock that is
handed on goes to a call in progress. -/
lemma Settled.release (hs : s.Settled) (tx : TxId) (Rel : String → Prop) {manager : TransactionManager}
    (hentry : ∀ r, Rel r ∧ entry ⟨manager, s.calls⟩ r = (s.entry r).release tx ∨
      ¬ Rel r ∧ entry ⟨manager, s.calls⟩ r = s.entry r)
    (hheld : ∀ u r, s.manager.recorded u r → manager.recorded u r ∨ u = tx ∧ Rel r) :
    Settled ⟨manager, s.calls⟩ where
  holders := by
    intro r u hu
    rcases hentry r with ⟨hrel, h⟩ | ⟨hrel, h⟩
    · rw [h] at hu
      rcases LockInfo.mem_holders_release hu with ⟨hne, hu⟩ | ⟨mode, hw⟩
      · rcases hs.holders r u hu with hrec | hreq
        · exact .inl ((hheld u r hrec).resolve_right fun h => hne h.1)
        · exact .inr hreq
      · exact .inr (hs.waiting r _ hw)
    · rw [h] at hu
      rcases hs.holders r u hu with hrec | hreq
      · exact .inl ((hheld u r hrec).resolve_right fun h => hrel h.2)
      · exact .inr hreq
  waiting := by
    intro r w hw
    rcases hentry r with ⟨-, h⟩ | ⟨-, h⟩
    · rw [h] at hw
      exact hs.waiting r w (LockInfo.mem_waiting_release hw)
    · rw [h] at hw
      exact hs.waiting r w hw

lemma Settled.finish (hs : s.Settled) {tx : TxId} {t : Transaction}
    (hactive : s.manager.getActive tx = .ok t) (state : TransactionState) :
    Settled { s with manager := s.manager.finish tx t state } := by
  refine hs.release tx (· ∈ t.heldLocks) (fun r => ?_) fun u r hrec => ?_
  · have hentry := entry_finish s tx t state r
    by_cases hr : r ∈ t.heldLocks
    · exact .inl ⟨hr, hentry.trans (if_pos hr)⟩
    · exact .inr ⟨hr, hentry.trans (if_neg hr)⟩
  · obtain ⟨t', hlookup, hstate, hheld⟩ := TransactionManager.recorded_iff.mp hrec
    by_cases hu : u = tx
    · subst hu
      rcases TransactionManager.getActive_cases s.manager u with ⟨err, herr⟩ | ⟨t₀, ht₀, -, hok⟩
      · rw [hactive] at herr
        cases herr
      · rw [hactive] at hok
        rw [hlookup] at ht₀
        cases hok
        cases ht₀
        exact .inr ⟨rfl, hheld⟩
    · refine .inl (TransactionManager.recorded_iff.mpr ⟨t', ?_, hstate, hheld⟩)
      rw [TransactionManager.finish_transactions, HashMap.lookup_insert_ite, if_neg hu]
      exact hlookup

lemma Settled.releaseLock (hs : s.Settled) (tx : TxId) (resource : String) :
    (s.step (.releaseLock tx resource)).Settled := by
  refine hs.release tx (· = resource) (fun r => ?_) fun u r hrec => ?_
  · by_cases hr : r = resource
    · subst hr
      exact .inl ⟨rfl, entry_of_releases (e := .releaseLock tx r) ⟨rfl, rfl⟩⟩
    · refine .inr ⟨hr, ?_⟩
      simp [entry, TransactionManager.releaseLock, HashMap.lookup_modify, hr]
  · obtain ⟨t, hlookup, hstate, hheld⟩ := TransactionManager.recorded_iff.mp hrec
    by_cases hr : u = tx ∧ r = resource
    · exact .inr hr
    · refine .inl (TransactionManager.recorded_iff.mpr ?_)
      simp only [TransactionManager.releaseLock, HashMap.lookup_modify]
      by_cases hu : u = tx
      · rw [if_pos hu, hlookup]
        refine ⟨_, rfl, hstate, (HashSet.mem_remove _ _ _).mpr ⟨fun h => hr ⟨hu, h⟩, hheld⟩⟩
      · rw [if_neg hu]
        exact ⟨t, hlookup, hstate, hheld⟩

/-- A step that cleans up keeps the table settled. -/
theorem Settled.step (hs : s.Settled) {e : LockStep} (hclean : s.cleans e) : (s.step e).Settled := by
  cases e with
  | begin readOnly => exact hs.begin (by simpa [cleans] using hclean)
  | acquireLock thread tx resource mode =>
    cases hcall : s.calls thread with
    | some c => simpa [LockSystem.step, hcall] using hs
    | none =>
      have hkeep : ∀ c', s.calls thread = some c' → c'.tx = tx ∧ c'.resource = resource := by
        simp [hcall]
      simp only [LockSystem.step, hcall]
      exact ⟨fun r u hu => (hs.holders r u hu).imp id (Requests.of_update hkeep),
        fun r w hw => (hs.waiting r w hw).of_update hkeep⟩
  | iterate thread => exact hs.iterate hclean
  | timeout thread => exact hs.timeout hclean
  | releaseLock tx resource => exact hs.releaseLock tx resource
  | commit tx =>
    rcases TransactionManager.getActive_cases s.manager tx with ⟨err, herr⟩ | ⟨t, -, -, hactive⟩
    · rwa [step_commit_error herr]
    · rw [step_commit_ok hactive]
      exact hs.finish hactive _
  | rollback tx =>
    rcases TransactionManager.getActive_cases s.manager tx with ⟨err, herr⟩ | ⟨t, -, -, hactive⟩
    · rwa [step_rollback_error herr]
    · rw [step_rollback_ok hactive]
      exact hs.finish hactive _

end

/-- In a run whose steps clean up, a transaction that has committed or rolled back and has no call of
`acquire_lock` in progress is neither a holder nor in the waiting queue of any resource. -/
theorem finished_leaves_no_lock (steps : List LockStep)
    (hclean : Along step (fun s e => s.cleans e) new steps) (tx : TxId) (t : Transaction)
    (hlookup : (run steps).manager.transactions.lookup tx = some t) (hfinished : t.state ≠ .active)
    (hidle : ∀ thread c, (run steps).calls thread = some c → c.tx ≠ tx) (r : String) (info : LockInfo)
    (hinfo : (run steps).manager.locks.lookup r = some info) :
    tx ∉ info.holders ∧ info.isWaiting tx = false := by
  have hsettled : (run steps).Settled :=
    inv_foldl (fun s e (hs : Settled s) he => hs.step he) settled_new hclean
  have hentry : (run steps).entry r = info := by rw [entry, hinfo, Option.getD_some]
  have hnone : ¬ (run steps).Requests tx r := by
    rintro ⟨thread, c, hcall, htx, -⟩
    exact hidle thread c hcall htx
  constructor
  · intro htx
    rcases hsettled.holders r tx (hentry ▸ htx) with hrec | hreq
    · obtain ⟨t', ht', hactive, -⟩ := TransactionManager.recorded_iff.mp hrec
      rw [hlookup] at ht'
      cases ht'
      exact hfinished hactive
    · exact hnone hreq
  · rw [Bool.eq_false_iff]
    intro hwaiting
    obtain ⟨mode, hmode⟩ := LockInfo.isWaiting_iff.mp hwaiting
    exact hnone (hsettled.waiting r (tx, mode) (hentry ▸ hmode))

/-- A thread only comes by a call through calling `acquire_lock`. -/
lemma calls_step {s : LockSystem} {e : LockStep} {thread : ℕ}
    (he : ∀ tx r mode, e ≠ .acquireLock thread tx r mode) (hidle : s.calls thread = none) :
    (s.step e).calls thread = none := by
  cases e with
  | begin readOnly | releaseLock tx resource => exact hidle
  | acquireLock thread' tx resource mode =>
    have hne : thread ≠ thread' := by
      rintro rfl
      exact he tx resource mode rfl
    cases hcall : s.calls thread' <;> simp [step, hcall, hidle, hne]
  | iterate thread' =>
    cases hcall : s.calls thread' with
    | none => simpa [step, hcall] using hidle
    | some c =>
      have hne : thread ≠ thread' := by
        rintro rfl
        rw [hidle] at hcall
        cases hcall
      have hiterate := step_iterate hcall
      generalize s.step (.iterate thread') = s' at hiterate ⊢
      cases hiterate <;> simp [hne, hidle]
  | timeout thread' =>
    cases hcall : s.calls thread' with
    | none => simpa [step, hcall] using hidle
    | some c =>
      have hne : thread ≠ thread' := by
        rintro rfl
        rw [hidle] at hcall
        cases hcall
      by_cases hwaited : c.waited <;> simp [step, hcall, hwaited, hidle, hne]
  | commit tx => cases hcommit : s.manager.commit tx <;> simpa [step, hcommit] using hidle
  | rollback tx => cases hroll : s.manager.rollbackManager tx <;> simpa [step, hroll] using hidle

/-- A thread that never calls `acquire_lock` has no call in progress. -/
lemma calls_run {steps : List LockStep} {thread : ℕ}
    (h : ∀ e ∈ steps, ∀ tx r mode, e ≠ .acquireLock thread tx r mode) :
    (run steps).calls thread = none := by
  induction steps using List.reverseRecOn with
  | nil => rfl
  | append_singleton steps e ih =>
    rw [run_concat]
    exact calls_step (h e (by simp)) (ih fun e' he' => h e' (List.mem_append_left _ he'))

/-- A lock is handed on to a waiter, which takes it over. -/
theorem finished_leaves_no_lock_handover :
    ∃ info, (run [.begin false, .begin false, .acquireLock 1 1 "a" .write, .iterate 1,
        .acquireLock 2 2 "a" .write, .iterate 2, .commit 1, .iterate 2]).manager.locks.lookup "a" =
          some info ∧ (1 : TxId) ∉ info.holders ∧ info.isWaiting 1 = false := by
  have hentry : ((run [.begin false, .begin false, .acquireLock 1 1 "a" .write, .iterate 1,
      .acquireLock 2 2 "a" .write, .iterate 2, .commit 1, .iterate 2]).manager.locks.lookup
        "a").isSome := by decide +kernel
  have hstate : ((run [.begin false, .begin false, .acquireLock 1 1 "a" .write, .iterate 1,
      .acquireLock 2 2 "a" .write, .iterate 2, .commit 1, .iterate 2]).manager.transactions.lookup
        1).any (fun t => t.state ≠ .active) := by decide +kernel
  have hidle : ∀ thread, (run [.begin false, .begin false, .acquireLock 1 1 "a" .write, .iterate 1,
      .acquireLock 2 2 "a" .write, .iterate 2, .commit 1, .iterate 2]).calls thread = none := by
    intro thread
    by_cases h₁ : thread = 1
    · subst h₁
      decide +kernel
    by_cases h₂ : thread = 2
    · subst h₂
      decide +kernel
    exact calls_run (by simp [Ne.symm h₁, Ne.symm h₂])
  obtain ⟨info, hinfo⟩ := Option.isSome_iff_exists.mp hentry
  obtain ⟨hsome, hfinished⟩ := (Option.any_eq_true_iff_get _ _).mp hstate
  refine ⟨info, hinfo, finished_leaves_no_lock _ (by decide +kernel) 1 _ (Option.some_get hsome).symm
    (by simpa using hfinished) (fun thread c hcall => ?_) "a" info hinfo⟩
  rw [hidle] at hcall
  cases hcall

/-- Two transactions read; the first one upgrades after the second has committed, and its request stays
in the queue.  So its own commit hands the lock to it again, for good. -/
theorem finished_holds_lock_upgrade :
    let s := run [.begin false, .begin false, .acquireLock 1 1 "a" .read, .iterate 1,
      .acquireLock 2 2 "a" .read, .iterate 2, .acquireLock 1 1 "a" .write, .iterate 1, .commit 2,
      .iterate 1, .commit 1]
    (s.manager.transactions.lookup 1).any (fun t => t.state = .committed) ∧
      (∀ thread, s.calls thread = none) ∧
      (s.manager.locks.lookup "a").any (fun info => (1 : TxId) ∈ info.holders) := by
  refine ⟨by decide +kernel, fun thread => ?_, by decide +kernel⟩
  by_cases h₁ : thread = 1
  · subst h₁
    decide +kernel
  by_cases h₂ : thread = 2
  · subst h₂
    decide +kernel
  exact calls_run (by simp [Ne.symm h₁, Ne.symm h₂])

end LockSystem

end Maharit
