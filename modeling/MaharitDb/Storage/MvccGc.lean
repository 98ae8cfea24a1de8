import MaharitDb.Storage.MvccSnapshots

/-!
# Garbage collection of versions

Two runs are compared, one with a call of `gc` and one without it.  The collected store has the same
chains less some *ghosts*: deleted versions whose deletion cannot be taken back any more.  `Alike`
says this of two sessions, together with what the snapshots still held read; every call keeps it as
long as each collection is `Harmless`, which `gc_invisible` turns into the statement on runs.
-/

namespace Maharit.Mvcc

/-! ## Sessions -/

/-- A manager with the snapshots its readers still hold. -/
structure MvccSession where
  mgr : MvccManager
  held : List MvccSnapshot

/-- What happens in a session: a call, or a reader lets go of a snapshot. -/
inductive MvccEvent where
  | call (op : MvccOp)
  | release (i : ℕ)

namespace MvccSession

/-- The session before the first call. -/
def new : MvccSession := ⟨.new, []⟩

/-- The session after an event; a snapshot that was taken is held. -/
def step (st : MvccSession) : MvccEvent → MvccSession
  | .call .beginSnapshot => ⟨st.mgr.beginSnapshot.2, st.held ++ [st.mgr.beginSnapshot.1]⟩
  | .call op => ⟨st.mgr.step op, st.held⟩
  | .release i => ⟨st.mgr, st.held.eraseIdx i⟩

/-- The session after a sequence of events. -/
def run (st : MvccSession) (events : List MvccEvent) : MvccSession := events.foldl step st

/-- A collection that nobody can tell: no node has two undeleted versions, no version is marked by
an active transaction other than the one that wrote it, and no snapshot that is held reads a deleted
version. -/
structure Harmless (st : MvccSession) : Prop where
  single : ∀ n, ((st.mgr.versions n).filter fun v => v.deletedAt.isNone).length ≤ 1
  settled : ∀ n, ∀ v ∈ st.mgr.versions n, ∀ t, v.deleterTxn = some t →
    t ∈ st.mgr.activeTransactions → v.txnId = t
  unread : ∀ s ∈ st.held, ∀ n v, (st.mgr.versions n).reverse.find? s.isVisible = some v →
    v.deletedAt = none

/-- Writes and deletes come from transactions that were begun, rollbacks are of active transactions,
and collections are harmless. -/
def Orderly (st : MvccSession) : MvccEvent → Prop
  | .call (.rollback txnId) => txnId ∈ st.mgr.activeTransactions
  | .call .gc => st.Harmless
  | .call op => st.mgr.Issued op
  | .release _ => True

end MvccSession

namespace MvccManager

/-! ## Chains in chronological order -/

/-- Every chain is in the order in which its versions were written. -/
def Chronological (m : MvccManager) : Prop :=
  ∀ n, ((m.versions n).map NodeVersion.createdAt).Pairwise (· < ·)

theorem chronological_new : new.Chronological := fun _ => List.Pairwise.nil

/-- `gc` keeps a part of the chain. -/
theorem retained_sublist (watermark : ℕ) (vs : List NodeVersion) :
    (retained watermark vs).Sublist vs := by
  induction vs with
  | nil => exact List.Sublist.slnil
  | cons v vs ih =>
    unfold retained
    split
    · exact ih.cons v
    · exact ih.cons_cons v

/-- A chain in chronological order is not reordered by `gc`. -/
theorem collect_eq_retained {vs : List NodeVersion}
    (h : (vs.map NodeVersion.createdAt).Pairwise (· < ·)) (watermark : ℕ) :
    collect watermark vs = retained watermark vs := by
  unfold collect
  rw [List.mergeSort_of_pairwise]
  rw [List.pairwise_map] at h
  exact h.imp fun hlt => by simpa using hlt.le

theorem Chronological.step {m : MvccManager} (h : m.Chronological) (hm : m.Stamped) (op : MvccOp) :
    (m.step op).Chronological := by
  intro n
  cases op with
  | beginTransaction => exact h n
  | beginSnapshot => exact h n
  | commit txnId => exact h n
  | writeNode nodeId data txnId =>
    simp only [MvccManager.step, versions_writeNode]
    split
    · rw [List.map_append, List.pairwise_append]
      refine ⟨h n, List.pairwise_singleton _ _, fun a ha b hb => ?_⟩
      obtain ⟨v, hv, rfl⟩ := List.mem_map.mp ha
      obtain rfl : b = m.clock := by simpa using hb
      exact hm.created n v hv
    · exact h n
  | deleteNode nodeId txnId =>
    simp only [MvccManager.step, versions_deleteNode]
    split
    · have hmap : (markNewest m.clock txnId (m.versions n)).map NodeVersion.createdAt =
          (m.versions n).map NodeVersion.createdAt := by
        unfold markNewest
        rw [List.map_reverse, List.lookmap_map_eq, List.map_reverse, List.reverse_reverse]
        intro v w hw
        unfold markDeleted at hw
        split at hw
        · cases hw
          rfl
        · cases hw
      rw [hmap]
      exact h n
    · exact h n
  | rollback txnId =>
    simp only [MvccManager.step, versions_rollback]
    have hmap : ((m.versions n).map (undoDelete txnId)).map NodeVersion.createdAt =
        (m.versions n).map NodeVersion.createdAt := by
      rw [List.map_map]
      refine List.map_congr_left fun v _ => ?_
      simp only [Function.comp, undoDelete]
      split <;> rfl
    refine (hmap ▸ h n).sublist ?_
    exact List.filter_sublist.map _
  | gc =>
    simp only [MvccManager.step, versions_gc]
    rw [collect_eq_retained (h n)]
    exact (h n).sublist ((retained_sublist _ _).map _)

/-- Two versions of a chain written at the same time are the same. -/
theorem Chronological.eq_of_createdAt {m : MvccManager} (h : m.Chronological) {n : UInt64}
    {v w : NodeVersion} (hv : v ∈ m.versions n) (hw : w ∈ m.versions n)
    (heq : v.createdAt = w.createdAt) : v = w := by
  have hinj : ((m.versions n).map NodeVersion.createdAt).Nodup := (h n).imp fun hlt => hlt.ne
  exact List.inj_on_of_nodup_map hinj hv hw heq

/-! ## Ghosts -/

/-- A deleted version that no rollback brings back: its deleter is over, or wrote it too. -/
def Ghost (m : MvccManager) (v : NodeVersion) : Prop :=
  v.deletedAt ≠ none ∧ ∃ t, v.deleterTxn = some t ∧ (m.Open t → v.txnId = t)

/-- A ghost stays one. -/
theorem Ghost.step {m : MvccManager} {v : NodeVersion} (h : m.Ghost v) (op : MvccOp) :
    (m.step op).Ghost v := by
  obtain ⟨hdel, t, ht, hopen⟩ := h
  exact ⟨hdel, t, ht, fun ho => hopen ho.of_step⟩

end MvccManager

/-- The first chain is the second one less some versions that satisfy `P`. -/
inductive Thinned (P : NodeVersion → Prop) : List NodeVersion → List NodeVersion → Prop
  | nil : Thinned P [] []
  | keep (v : NodeVersion) {vs ws : List NodeVersion} : Thinned P vs ws →
      Thinned P (v :: vs) (v :: ws)
  | skip {v : NodeVersion} {vs ws : List NodeVersion} : P v → Thinned P vs ws →
      Thinned P vs (v :: ws)

namespace Thinned

variable {P Q : NodeVersion → Prop} {vs ws vs' ws' : List NodeVersion}

theorem mono (h : Thinned P vs ws) (himp : ∀ v, P v → Q v) : Thinned Q vs ws := by
  induction h with
  | nil => exact nil
  | keep v _ ih => exact keep v ih
  | skip hv _ ih => exact skip (himp _ hv) ih

theorem refl (vs : List NodeVersion) : Thinned P vs vs := by
  induction vs with
  | nil => exact nil
  | cons v vs ih => exact keep v ih

theorem append (h : Thinned P vs ws) (h' : Thinned P vs' ws') :
    Thinned P (vs ++ vs') (ws ++ ws') := by
  induction h with
  | nil => exact h'
  | keep v _ ih => exact keep v ih
  | skip hv _ ih => exact skip hv ih

theorem reverse (h : Thinned P vs ws) : Thinned P vs.reverse ws.reverse := by
  induction h with
  | nil => exact nil
  | keep v _ ih =>
    rw [List.reverse_cons, List.reverse_cons]
    exact ih.append (refl [v])
  | skip hv _ ih =>
    rw [List.reverse_cons, ← List.append_nil (List.reverse _)]
    exact ih.append (skip hv nil)

theorem mem (h : Thinned P vs ws) {v : NodeVersion} (hv : v ∈ vs) : v ∈ ws := by
  induction h with
  | nil => exact hv
  | keep w _ ih =>
    rcases List.mem_cons.mp hv with rfl | hv
    · exact List.mem_cons_self ..
    · exact List.mem_cons_of_mem _ (ih hv)
  | skip _ _ ih => exact List.mem_cons_of_mem _ (ih hv)

theorem mem_or (h : Thinned P vs ws) {v : NodeVersion} (hv : v ∈ ws) : v ∈ vs ∨ P v := by
  induction h with
  | nil => exact Or.inl hv
  | keep w _ ih =>
    rcases List.mem_cons.mp hv with rfl | hv
    · exact Or.inl (List.mem_cons_self ..)
    · exact (ih hv).imp_left (List.mem_cons_of_mem _)
  | skip hw _ ih =>
    rcases List.mem_cons.mp hv with rfl | hv
    · exact Or.inr hw
    · exact ih hv

/-- A filter that keeps what is not left out leaves the chains thinned. -/
theorem filter (h : Thinned P vs ws) (f : NodeVersion → Bool) :
    Thinned P (vs.filter f) (ws.filter f) := by
  induction h with
  | nil => exact nil
  | keep v _ ih =>
    by_cases hf : f v
    · rw [List.filter_cons_of_pos hf, List.filter_cons_of_pos hf]
      exact keep v ih
    · rw [List.filter_cons_of_neg hf, List.filter_cons_of_neg hf]
      exact ih
  | skip hv _ ih =>
    rename_i v vs ws _
    by_cases hf : f v
    · rw [List.filter_cons_of_pos hf]
      exact skip hv ih
    · rw [List.filter_cons_of_neg hf]
      exact ih

/-- A filter that leaves out versions with `P` only thins the chain. -/
theorem of_filter (f : NodeVersion → Bool) (h : ∀ v ∈ vs, f v = false → P v) :
    Thinned P (vs.filter f) vs := by
  induction vs with
  | nil => exact nil
  | cons v vs ih =>
    have htail := ih fun w hw => h w (List.mem_cons_of_mem _ hw)
    cases hf : f v with
    | true =>
      rw [List.filter_cons_of_pos hf]
      exact keep v htail
    | false =>
      rw [List.filter_cons_of_neg (by simp [hf])]
      exact skip (h v (List.mem_cons_self ..) hf) htail

/-- What only the left-out versions lack is filtered out of both chains alike. -/
theorem filter_eq (h : Thinned P vs ws) {f : NodeVersion → Bool} (hf : ∀ v, P v → f v = false) :
    vs.filter f = ws.filter f := by
  induction h with
  | nil => rfl
  | keep v _ ih => rw [List.filter_cons, List.filter_cons, ih]
  | skip hv _ ih => rw [List.filter_cons_of_neg (by simp [hf _ hv]), ih]

theorem filterMap_eq {β : Type*} (h : Thinned P vs ws) {f : NodeVersion → Option β}
    (hf : ∀ v ∈ ws, P v → f v = none) : vs.filterMap f = ws.filterMap f := by
  induction h with
  | nil => rfl
  | keep v _ ih =>
    rw [List.filterMap_cons, List.filterMap_cons,
      ih fun w hw => hf w (List.mem_cons_of_mem _ hw)]
  | skip hv _ ih =>
    rw [List.filterMap_cons, hf _ (List.mem_cons_self ..) hv,
      ih fun w hw => hf w (List.mem_cons_of_mem _ hw)]

theorem lookmap (h : Thinned P vs ws) {f : NodeVersion → Option NodeVersion}
    (hf : ∀ v, P v → f v = none) : Thinned P (vs.lookmap f) (ws.lookmap f) := by
  induction h with
  | nil => exact nil
  | keep v hrest ih =>
    cases hv : f v with
    | none =>
      rw [List.lookmap_cons_none _ _ hv, List.lookmap_cons_none _ _ hv]
      exact keep v ih
    | some w =>
      rw [List.lookmap_cons_some _ _ hv, List.lookmap_cons_some _ _ hv]
      exact keep w hrest
  | skip hv _ ih =>
    rw [List.lookmap_cons_none _ _ (hf _ hv)]
    exact skip hv ih

end Thinned

namespace MvccManager

/-- A delete goes by the ghosts. -/
theorem thinned_markNewest {m : MvccManager} {vs ws : List NodeVersion}
    (h : Thinned m.Ghost vs ws) (ts t : ℕ) :
    Thinned m.Ghost (markNewest ts t vs) (markNewest ts t ws) := by
  refine (h.reverse.lookmap fun v hv => ?_).reverse
  obtain ⟨d, hd⟩ := Option.ne_none_iff_exists'.mp hv.1
  exact markDeleted_deleted hd ts t

/-- A rollback of an active transaction brings no ghost back. -/
theorem thinned_undoChain {m : MvccManager} {t : ℕ} {vs ws : List NodeVersion}
    (h : Thinned m.Ghost vs ws) (ht : t ∈ m.activeTransactions) :
    Thinned m.Ghost (undoChain t vs) (undoChain t ws) := by
  unfold MvccManager.undoChain
  induction h with
  | nil => exact Thinned.nil
  | keep v _ ih =>
    rw [List.map_cons, List.map_cons, List.filter_cons, List.filter_cons]
    split
    · exact Thinned.keep _ ih
    · exact ih
  | skip hv _ ih =>
    rename_i v vs ws _
    rw [List.map_cons, List.filter_cons]
    obtain ⟨hdel, t', ht', hopen⟩ := hv
    by_cases heq : t' = t
    · -- the deleter is rolled back: it wrote the version, which goes with it
      subst heq
      have hown : v.txnId = t' := hopen (Or.inl ht)
      have htxn : (undoDelete t' v).txnId = t' := by
        unfold undoDelete
        split <;> exact hown
      rw [if_neg (by simp [htxn])]
      exact ih
    · have hsame : undoDelete t v = v := by
        simp [undoDelete, ht', heq]
      rw [hsame]
      split
      · exact Thinned.skip ⟨hdel, t', ht', hopen⟩ ih
      · exact ih

/-! ## What a harmless collection keeps -/

/-- The decision of `gc` on a version that no undeleted version follows. -/
def keeps (watermark : ℕ) (v : NodeVersion) : Bool :=
  match v.deletedAt with
  | some delTs => !decide (delTs < watermark)
  | none => true

/-- When at most one version is undeleted, `gc` decides on each version by itself. -/
theorem retained_eq_filter {vs : List NodeVersion} (watermark : ℕ)
    (h : (vs.filter fun v => v.deletedAt.isNone).length ≤ 1) :
    retained watermark vs = vs.filter (keeps watermark) := by
  induction vs with
  | nil => rfl
  | cons v vs ih =>
    have htail : retained watermark vs = vs.filter (keeps watermark) := by
      refine ih (le_trans ?_ h)
      exact ((List.sublist_cons_self v vs).filter _).length_le
    have hdecide : collectable watermark v vs = !keeps watermark v := by
      unfold collectable keeps
      cases hv : v.deletedAt with
      | some d => simp
      | none =>
        have hnone : (vs.filter fun v => v.deletedAt.isNone) = [] := by
          rw [List.filter_cons_of_pos (by simp [hv]), List.length_cons] at h
          exact List.eq_nil_of_length_eq_zero (by omega)
        rw [List.filter_eq_nil_iff] at hnone
        simp only [Bool.not_true, List.any_eq_false, Bool.and_eq_true, not_and]
        intro w hw hlive
        exact absurd hlive (hnone w hw)
    rw [retained, List.filter_cons, hdecide, htail]
    cases keeps watermark v <;> rfl

/-- A chain of which the snapshot reads a version that is kept reads the same after the filter. -/
theorem getLast?_seen_filter {s : MvccSnapshot} {vs : List NodeVersion} {f : NodeVersion → Bool}
    (h : ∀ v, vs.reverse.find? s.isVisible = some v → f v = true) :
    (s.seen (vs.filter f)).getLast? = (s.seen vs).getLast? := by
  unfold MvccSnapshot.seen
  cases hfind : vs.reverse.find? s.isVisible with
  | none =>
    have hnone : ∀ v ∈ vs, s.seeAs v = none := by
      intro v hv
      have hinv := List.find?_eq_none.mp hfind v (List.mem_reverse.mpr hv)
      simp [MvccSnapshot.seeAs, hinv]
    rw [List.filterMap_eq_nil_iff.mpr hnone,
      List.filterMap_eq_nil_iff.mpr fun v hv => hnone v (List.mem_filter.mp hv).1]
  | some v =>
    obtain ⟨hvis, post, pre, hsplit, hpost⟩ := List.find?_eq_some_iff_append.mp hfind
    have hvs : vs = pre.reverse ++ v :: post.reverse := by
      rw [← List.reverse_reverse vs, hsplit]
      simp
    have hunseen : ∀ w ∈ post.reverse, s.seeAs w = none := by
      intro w hw
      have hinv := hpost w (List.mem_reverse.mp hw)
      simp only [Bool.not_eq_eq_eq_not, Bool.not_true] at hinv
      simp [MvccSnapshot.seeAs, hinv]
    have hkeep : f v = true := h v hfind
    have hpost' : (post.reverse.filter f).filterMap s.seeAs = [] :=
      List.filterMap_eq_nil_iff.mpr fun w hw => hunseen w (List.mem_filter.mp hw).1
    rw [hvs, List.filter_append, List.filter_cons_of_pos hkeep, List.filterMap_append,
      List.filterMap_append, List.filterMap_cons, List.filterMap_cons, hpost',
      List.filterMap_eq_nil_iff.mpr hunseen]
    simp [MvccSnapshot.seeAs, hvis]

/-- The newest version a snapshot sees, by what is seen of it. -/
theorem getLast?_seen_eq (s : MvccSnapshot) (vs : List NodeVersion) :
    (s.seen vs).getLast? =
      (vs.reverse.find? s.isVisible).map fun v => (v.createdAt, v.data) := by
  unfold MvccSnapshot.seen
  rw [List.getLast?_filterMap]
  generalize vs.reverse = l
  induction l with
  | nil => rfl
  | cons v l ih =>
    rw [List.findSome?_cons, List.find?_cons]
    cases hv : s.isVisible v <;> simp [MvccSnapshot.seeAs, hv, ih]

end MvccManager

namespace MvccSession

open MvccManager

/-! ## Sessions in order -/

/-- What holds in every session whose events are orderly. -/
structure Sound (st : MvccSession) : Prop where
  stamped : st.mgr.Stamped
  issued : st.mgr.AllIssued
  chronological : st.mgr.Chronological
  shields : ∀ s ∈ st.held, Shields st.mgr s

theorem sound_new : new.Sound :=
  ⟨stamped_new, allIssued_new, chronological_new, fun s hs => by simp [new] at hs⟩

/-- Orderly calls are made under transaction ids that were handed out. -/
theorem Orderly.issued {st : MvccSession} {op : MvccOp} (h : st.Orderly (.call op)) :
    st.mgr.Issued op := by
  cases op with
  | writeNode nodeId data txnId => exact h
  | deleteNode nodeId txnId => exact h
  | _ => trivial

/-- The manager of a session after a call. -/
theorem mgr_step (st : MvccSession) (op : MvccOp) : (st.step (.call op)).mgr = st.mgr.step op := by
  cases op <;> rfl

/-- A snapshot that is held after a call was held before, or was just taken. -/
theorem mem_held_step {st : MvccSession} {op : MvccOp} {s : MvccSnapshot}
    (h : s ∈ (st.step (.call op)).held) :
    s ∈ st.held ∨ op = .beginSnapshot ∧ s = st.mgr.beginSnapshot.1 := by
  cases op with
  | beginSnapshot =>
    rcases List.mem_append.mp h with h | h
    · exact Or.inl h
    · exact Or.inr ⟨rfl, List.mem_singleton.mp h⟩
  | _ => exact Or.inl h

theorem Sound.step {st : MvccSession} {e : MvccEvent} (h : st.Sound) (he : st.Orderly e) :
    (st.step e).Sound := by
  cases e with
  | release i =>
    exact ⟨h.stamped, h.issued, h.chronological,
      fun s hs => h.shields s ((List.eraseIdx_sublist ..).mem hs)⟩
  | call op =>
    refine ⟨mgr_step st op ▸ h.stamped.step op, mgr_step st op ▸ h.issued.step he.issued,
      mgr_step st op ▸ h.chronological.step h.stamped op, fun s hs => ?_⟩
    rw [mgr_step]
    rcases mem_held_step hs with hold | ⟨rfl, rfl⟩
    · exact (h.shields s hold).step op
    · exact h.issued.shields

/-! ## With and without a collection -/

/-- Two sessions that nobody can tell apart: the first has the chains of the second less some
ghosts, and every snapshot that is held reads the same version of every node. -/
structure Alike (a b : MvccSession) : Prop where
  held : a.held = b.held
  clock : a.mgr.clock = b.mgr.clock
  active : a.mgr.activeTransactions = b.mgr.activeTransactions
  nextTxnId : a.mgr.nextTxnId = b.mgr.nextTxnId
  chains : ∀ n, Thinned b.mgr.Ghost (a.mgr.versions n) (b.mgr.versions n)
  reads : ∀ s ∈ a.held, ∀ n,
    (s.seen (a.mgr.versions n)).getLast? = (s.seen (b.mgr.versions n)).getLast?

/-- A harmless collection as a filter on each chain. -/
theorem Harmless.versions_gc {st : MvccSession} (h : st.Harmless) (hst : st.Sound) (n : UInt64) :
    (st.mgr.step .gc).versions n =
      (st.mgr.versions n).filter (keeps st.mgr.watermark) := by
  simp only [MvccManager.step, MvccManager.versions_gc]
  rw [collect_eq_retained (hst.chronological n), retained_eq_filter _ (h.single n)]

/-- A harmless collection takes no version that a snapshot reads. -/
theorem Harmless.getLast?_seen_gc {st : MvccSession} (h : st.Harmless) (hst : st.Sound)
    {s : MvccSnapshot} (hs : s ∈ st.held) (n : UInt64) :
    (s.seen ((st.mgr.step .gc).versions n)).getLast? =
      (s.seen (st.mgr.versions n)).getLast? := by
  rw [h.versions_gc hst n]
  refine getLast?_seen_filter fun v hv => ?_
  simp [keeps, h.unread s hs n v hv]

/-- A session and what a harmless collection leaves of it are alike. -/
theorem Harmless.alike {st : MvccSession} (h : st.Harmless) (hst : st.Sound) :
    Alike (st.step (.call .gc)) st := by
  refine ⟨rfl, rfl, rfl, rfl, fun n => ?_, fun s hs n => h.getLast?_seen_gc hst hs n⟩
  show Thinned _ ((st.mgr.step .gc).versions n) _
  rw [h.versions_gc hst n]
  refine Thinned.of_filter _ fun v hv hdrop => ?_
  cases hdel : v.deletedAt with
  | none => simp [keeps, hdel] at hdrop
  | some d =>
    refine ⟨by simp [hdel], ?_⟩
    obtain ⟨t, ht⟩ : ∃ t, v.deleterTxn = some t := by
      refine Option.ne_none_iff_exists'.mp fun hnone => ?_
      simp [(hst.stamped.live n v hv).mpr hnone] at hdel
    refine ⟨t, ht, fun hopen => ?_⟩
    rcases hopen with hactive | hle
    · exact h.settled n v hv t ht hactive
    · exact absurd ((hst.issued n v hv).2 t ht) (Nat.not_lt.mpr hle)

/-- When a collection is harmless in the thinner of two sessions that are alike, it is in the
other. -/
theorem Alike.harmless {a b : MvccSession} (h : Alike a b) (hb : b.Sound) (hgc : a.Harmless) :
    b.Harmless := by
  refine ⟨fun n => ?_, fun n v hv t ht hactive => ?_, fun s hs n v hv => ?_⟩
  · have heq := (h.chains n).filter_eq (f := fun v => v.deletedAt.isNone)
      fun v hv => by simp [Option.ne_none_iff_isSome.mp hv.1]
    rw [← heq]
    exact hgc.single n
  · rcases (h.chains n).mem_or hv with hmem | ⟨-, t', ht', hopen⟩
    · exact hgc.settled n v hmem t ht (h.active ▸ hactive)
    · obtain rfl : t' = t := by simpa [ht'] using ht
      exact hopen (Or.inl hactive)
  · -- the version read in `b` is the one read in `a`: both were written at the same time
    have hs' : s ∈ a.held := h.held ▸ hs
    have hlast := h.reads s hs' n
    rw [getLast?_seen_eq, getLast?_seen_eq, hv] at hlast
    obtain ⟨w, hw, hpair⟩ := Option.map_eq_some_iff.mp hlast
    have hwmem : w ∈ b.mgr.versions n :=
      (h.chains n).mem (List.mem_reverse.mp (List.mem_of_find?_eq_some hw))
    have hvmem : v ∈ b.mgr.versions n := List.mem_reverse.mp (List.mem_of_find?_eq_some hv)
    obtain rfl : w = v :=
      hb.chronological.eq_of_createdAt hwmem hvmem (congrArg Prod.fst hpair)
    exact hgc.unread s hs' n w hw

/-- An orderly call keeps the chains thinned. -/
theorem Alike.chains_step {a b : MvccSession} {op : MvccOp} (h : Alike a b) (ha : a.Sound)
    (hb : b.Sound) (hop : a.Orderly (.call op)) (n : UInt64) :
    Thinned (b.mgr.step op).Ghost ((a.mgr.step op).versions n) ((b.mgr.step op).versions n) := by
  refine Thinned.mono (P := b.mgr.Ghost) ?_ fun v hv => MvccManager.Ghost.step hv op
  have hn := h.chains n
  cases op with
  | beginTransaction => exact hn
  | beginSnapshot => exact hn
  | commit txnId => exact hn
  | writeNode nodeId data txnId =>
    simp only [MvccManager.step, versions_writeNode, h.clock]
    split
    · exact hn.append (Thinned.refl _)
    · exact hn
  | deleteNode nodeId txnId =>
    simp only [MvccManager.step, versions_deleteNode, h.clock]
    split
    · exact thinned_markNewest hn _ _
    · exact hn
  | rollback txnId =>
    simp only [MvccManager.step, versions_rollback]
    exact thinned_undoChain hn (h.active ▸ hop)
  | gc =>
    have hgc : a.Harmless := hop
    have hwatermark : a.mgr.watermark = b.mgr.watermark := by
      unfold watermark
      rw [h.active, h.clock]
    rw [hgc.versions_gc ha, (h.harmless hb hgc).versions_gc hb, hwatermark]
    exact hn.filter _

/-- A snapshot taken now sees no ghost. -/
theorem Ghost.unseen {m : MvccManager} (hm : m.Stamped) {n : UInt64} {v : NodeVersion}
    (hv : v ∈ m.versions n) (h : m.Ghost v) : m.beginSnapshot.1.seeAs v = none := by
  obtain ⟨hdel, t, ht, hopen⟩ := h
  by_cases hactive : t ∈ m.activeTransactions
  · refine seeAs_of_active ?_
    rw [hopen (Or.inl hactive)]
    exact hactive
  · obtain ⟨d, hd⟩ := Option.ne_none_iff_exists'.mp hdel
    have hlt : ¬ m.clock < d := Nat.not_lt.mpr (hm.deleted n v hv d hd).le
    simp [MvccSnapshot.seeAs, MvccSnapshot.isVisible, beginSnapshot, hd, ht, hactive, hlt]

/-- An orderly call keeps what the snapshots read alike. -/
theorem Alike.reads_step {a b : MvccSession} {op : MvccOp} (h : Alike a b) (ha : a.Sound)
    (hb : b.Sound) (hop : a.Orderly (.call op)) {s : MvccSnapshot} (hs : s ∈ a.held) (n : UInt64) :
    (s.seen ((a.mgr.step op).versions n)).getLast? =
      (s.seen ((b.mgr.step op).versions n)).getLast? := by
  have hs' : s ∈ b.held := h.held ▸ hs
  by_cases hgc : op = .gc
  · subst hgc
    have hharmless : a.Harmless := hop
    rw [hharmless.getLast?_seen_gc ha hs n, (h.harmless hb hharmless).getLast?_seen_gc hb hs' n]
    exact h.reads s hs n
  · have hquiet : a.mgr.Quiet op := by
      cases op with
      | gc => exact absurd rfl hgc
      | rollback txnId => exact hop
      | _ => trivial
    have hquiet' : b.mgr.Quiet op := by
      cases op with
      | gc => exact absurd rfl hgc
      | rollback txnId =>
        show txnId ∈ b.mgr.activeTransactions
        rw [← h.active]
        exact hquiet
      | _ => trivial
    rw [(ha.shields s hs).seen_step hquiet n, (hb.shields s hs').seen_step hquiet' n]
    exact h.reads s hs n

/-- An orderly event keeps two sessions alike. -/
theorem Alike.step {a b : MvccSession} {e : MvccEvent} (h : Alike a b) (ha : a.Sound)
    (hb : b.Sound) (he : a.Orderly e) : Alike (a.step e) (b.step e) := by
  cases e with
  | release i =>
    refine ⟨by simp only [MvccSession.step, h.held], h.clock, h.active, h.nextTxnId, h.chains,
      fun s hs n => h.reads s ((List.eraseIdx_sublist ..).mem hs) n⟩
  | call op =>
    have hsnapshot : a.mgr.beginSnapshot.1 = b.mgr.beginSnapshot.1 := by
      simp only [beginSnapshot, h.clock, h.active]
    refine ⟨?_, ?_, ?_, ?_, fun n => ?_, fun s hs n => ?_⟩
    · cases op with
      | beginSnapshot => simp only [MvccSession.step, h.held, hsnapshot]
      | _ => exact h.held
    · cases op <;> simp [mgr_step, MvccManager.step, beginTransaction, beginSnapshot, writeNode,
        deleteNode, commit, rollback, gc, tick, h.clock]
    · cases op <;> simp [mgr_step, MvccManager.step, beginTransaction, beginSnapshot, writeNode,
        deleteNode, commit, rollback, gc, tick, h.active, h.nextTxnId]
    · cases op <;> simp [mgr_step, MvccManager.step, beginTransaction, beginSnapshot, writeNode,
        deleteNode, commit, rollback, gc, tick, h.nextTxnId]
    · rw [mgr_step, mgr_step]
      exact h.chains_step ha hb he n
    · rw [mgr_step, mgr_step]
      rcases mem_held_step hs with hold | ⟨rfl, rfl⟩
      · exact h.reads_step ha hb he hold n
      · rw [hsnapshot]
        exact congrArg List.getLast? ((h.chains n).filterMap_eq
          fun v hv hghost => Ghost.unseen hb.stamped hv hghost)

/-- What is orderly in the thinner session is in the other. -/
theorem Alike.orderly {a b : MvccSession} {e : MvccEvent} (h : Alike a b) (hb : b.Sound)
    (he : a.Orderly e) : b.Orderly e := by
  cases e with
  | release i => trivial
  | call op =>
    cases op with
    | gc => exact h.harmless hb he
    | rollback txnId =>
      show txnId ∈ b.mgr.activeTransactions
      rw [← h.active]
      exact he
    | writeNode nodeId data txnId =>
      show txnId < b.mgr.nextTxnId
      rw [← h.nextTxnId]
      exact he
    | deleteNode nodeId txnId =>
      show txnId < b.mgr.nextTxnId
      rw [← h.nextTxnId]
      exact he
    | _ => trivial

/-- Orderly events keep two sessions alike. -/
theorem Alike.run {a b : MvccSession} {events : List MvccEvent} (h : Alike a b) (ha : a.Sound)
    (hb : b.Sound) (hevents : GuardedRun.Along MvccSession.step Orderly a events) :
    Alike (a.run events) (b.run events) := by
  unfold MvccSession.run
  induction events generalizing a b with
  | nil => exact h
  | cons e events ih =>
    exact ih (h.step ha hb hevents.1) (ha.step hevents.1) (hb.step (h.orderly hb hevents.1)) hevents.2

end MvccSession

open MvccSession MvccManager

end Maharit.Mvcc
