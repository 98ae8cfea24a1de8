import MaharitDb.Storage.LockTable

/-!
# Deadlock detection

`WaitsFor` is the wait-for graph of a lock table, and `ClosesCycle` says that a request would close a
cycle in it.  The search of `would_cause_deadlock_internal` leaves out the waits on the requested
resource itself: it follows `WaitsElsewhere`.  A cycle that goes through such a wait is found all the
same when it comes back to another holder, from which the search starts anyway; it is missed when it
comes back to the requesting transaction, which then holds the resource itself (`HiddenWait`).
-/

namespace Maharit

namespace TransactionManager

open Relation

/-- `u` waits for `v`: it is queued on a resource that `v` holds. -/
def WaitsFor (locks : HashMap String LockInfo) (u v : TxId) : Prop :=
  ∃ resource info, locks.lookup resource = some info ∧ info.isWaiting u ∧ v ∈ info.holders

/-- `u` waits for `v` on a resource other than `r`. -/
def WaitsElsewhere (locks : HashMap String LockInfo) (r : String) (u v : TxId) : Prop :=
  ∃ resource info, resource ≠ r ∧ locks.lookup resource = some info ∧ info.isWaiting u ∧
    v ∈ info.holders

/-- A transaction other than `tx` holds the resource. -/
def OtherHolder (locks : HashMap String LockInfo) (tx : TxId) (r : String) (holder : TxId) : Prop :=
  ∃ info, locks.lookup r = some info ∧ holder ∈ info.holders ∧ holder ≠ tx

/-- Waiting for the other holders of a resource would close a cycle. -/
def ClosesCycle (locks : HashMap String LockInfo) (tx : TxId) (r : String) : Prop :=
  ∃ holder, OtherHolder locks tx r holder ∧ ReflTransGen (WaitsFor locks) holder tx

/-- Another holder waits for the transaction on other resources. -/
def CycleElsewhere (locks : HashMap String LockInfo) (tx : TxId) (r : String) : Prop :=
  ∃ holder, OtherHolder locks tx r holder ∧ ReflTransGen (WaitsElsewhere locks r) holder tx

/-- The transaction holds the resource, and another holder is queued on it or waits, on other
resources, for a transaction that is queued on it. -/
def HiddenWait (locks : HashMap String LockInfo) (tx : TxId) (r : String) : Prop :=
  ∃ info, locks.lookup r = some info ∧ tx ∈ info.holders ∧
    ∃ holder u, OtherHolder locks tx r holder ∧ info.isWaiting u ∧
      ReflTransGen (WaitsElsewhere locks r) holder u

section

variable {locks : HashMap String LockInfo} {tx : TxId} {r : String}

lemma WaitsElsewhere.waitsFor {u v : TxId} (h : WaitsElsewhere locks r u v) : WaitsFor locks u v := by
  obtain ⟨resource, info, -, hlookup, hwaiting, hholder⟩ := h
  exact ⟨resource, info, hlookup, hwaiting, hholder⟩

lemma edge_waitForGraph {u v : TxId} :
    (waitForGraph locks r).Edge u v ↔ WaitsElsewhere locks r u v :=
  mem_waitsFor

/-- The search finds the cycles through other resources. -/
theorem wouldCauseDeadlock_iff :
    wouldCauseDeadlock locks tx r = true ↔ CycleElsewhere locks tx r := by
  have hedge : (waitForGraph locks r).Edge = WaitsElsewhere locks r := by
    funext u v
    exact propext edge_waitForGraph
  unfold wouldCauseDeadlock
  cases hlookup : locks.lookup r with
  | none => simp [CycleElsewhere, OtherHolder, hlookup]
  | some info =>
    rw [FiniteGraph.search_iff, hedge]
    simp [CycleElsewhere, OtherHolder, hlookup]

lemma CycleElsewhere.closesCycle (h : CycleElsewhere locks tx r) : ClosesCycle locks tx r := by
  obtain ⟨holder, hholder, hpath⟩ := h
  exact ⟨holder, hholder, ReflTransGen.mono (fun _ _ => WaitsElsewhere.waitsFor) _ _ hpath⟩

lemma HiddenWait.closesCycle (h : HiddenWait locks tx r) : ClosesCycle locks tx r := by
  obtain ⟨info, hlookup, htx, holder, u, hholder, hwaiting, hpath⟩ := h
  have hlast : WaitsFor locks u tx := ⟨r, info, hlookup, hwaiting, htx⟩
  exact ⟨holder, hholder, (ReflTransGen.mono (fun _ _ => WaitsElsewhere.waitsFor) _ _ hpath).tail hlast⟩

/-- A path to the transaction either avoids the requested resource, or it comes to a transaction that
is queued on it; the last such wait on the path decides how the cycle closes. -/
lemma path_elsewhere {v : TxId} (hpath : ReflTransGen (WaitsFor locks) v tx) :
    ReflTransGen (WaitsElsewhere locks r) v tx ∨
      ∃ info u, locks.lookup r = some info ∧ info.isWaiting u ∧
        ReflTransGen (WaitsElsewhere locks r) v u ∧
        (tx ∈ info.holders ∨ CycleElsewhere locks tx r ∨ HiddenWait locks tx r) := by
  induction hpath using ReflTransGen.head_induction_on with
  | refl => exact .inl .refl
  | @head u w hwait _ ih =>
    obtain ⟨resource, info, hlookup, hwaiting, hholder⟩ := hwait
    by_cases hr : resource = r
    · subst hr
      refine .inr ⟨info, u, hlookup, hwaiting, .refl, ?_⟩
      by_cases hw : w = tx
      · exact .inl (hw ▸ hholder)
      · -- the path comes back to another holder
        have hother : OtherHolder locks tx resource w := ⟨info, hlookup, hholder, hw⟩
        rcases ih with hsafe | ⟨info', u', hlookup', hwaiting', hsafe, hclose⟩
        · exact .inr (.inl ⟨w, hother, hsafe⟩)
        · rcases hclose with htx | hclose
          · exact .inr (.inr ⟨info', hlookup', htx, w, u', hother, hwaiting', hsafe⟩)
          · exact .inr hclose
    · have hstep : WaitsElsewhere locks r u w := ⟨resource, info, hr, hlookup, hwaiting, hholder⟩
      rcases ih with hsafe | ⟨info', u', hlookup', hwaiting', hsafe, hclose⟩
      · exact .inl (.head hstep hsafe)
      · exact .inr ⟨info', u', hlookup', hwaiting', .head hstep hsafe, hclose⟩

/-- A cycle goes through other resources, or it closes through a hidden wait. -/
theorem closesCycle_iff :
    ClosesCycle locks tx r ↔ CycleElsewhere locks tx r ∨ HiddenWait locks tx r := by
  constructor
  · rintro ⟨holder, hholder, hpath⟩
    rcases path_elsewhere (r := r) hpath with hsafe | ⟨info, u, hlookup, hwaiting, hsafe, hclose⟩
    · exact .inl ⟨holder, hholder, hsafe⟩
    · rcases hclose with htx | hclose
      · exact .inr ⟨info, hlookup, htx, holder, u, hholder, hwaiting, hsafe⟩
      · exact hclose
  · rintro (h | h)
    · exact h.closesCycle
    · exact h.closesCycle

end

/-- The search is exact for a request, unless the transaction holds the resource, a hidden wait closes
a cycle there, and no cycle goes through other resources. -/
theorem deadlock_detection_exact (locks : HashMap String LockInfo) (tx : TxId) (r : String) :
    (wouldCauseDeadlock locks tx r = true ↔ ClosesCycle locks tx r) ↔
      (HiddenWait locks tx r → CycleElsewhere locks tx r) := by
  rw [wouldCauseDeadlock_iff, closesCycle_iff]
  tauto

/-- Two readers upgrade the same resource: the second one waits for the first, which already waits for
it, and no deadlock is found. -/
theorem deadlock_missed_upgrade :
    let s := LockSystem.run [.begin false, .begin false, .acquireLock 1 1 "a" .read, .iterate 1,
      .acquireLock 2 2 "a" .read, .iterate 2, .acquireLock 1 1 "a" .write, .iterate 1]
    (s.manager.locks.lookup "a").any (fun info => !info.canGrant .write 2) ∧
      wouldCauseDeadlock s.manager.locks 2 "a" = false ∧ ClosesCycle s.manager.locks 2 "a" := by
  intro s
  have hentry : (s.manager.locks.lookup "a").map
      (fun info => (info.holders.toList, info.waiting)) = some ([2, 1], [(1, .write)]) := by
    decide +kernel
  obtain ⟨info, hlookup, hinfo⟩ := Option.map_eq_some_iff.mp hentry
  obtain ⟨hholders, hwaiting⟩ : info.holders.toList = [2, 1] ∧ info.waiting = [(1, .write)] := by
    simpa using hinfo
  have hmem : ∀ t, t = 2 ∨ t = 1 → t ∈ info.holders := by
    intro t ht
    rw [← HashSet.mem_toList, hholders]
    simpa using ht
  have hwaits : WaitsFor s.manager.locks 1 2 :=
    ⟨"a", info, hlookup, LockInfo.isWaiting_iff.mpr ⟨.write, by simp [hwaiting]⟩, hmem 2 (.inl rfl)⟩
  refine ⟨by decide +kernel, by decide +kernel, 1, ⟨info, hlookup, hmem 1 (.inr rfl), by decide⟩, ?_⟩
  exact .single hwaits

end TransactionManager

end Maharit
