import Mathlib.Order.WellFoundedSet
import MaharitDb.Lib.RecursiveSearch

/-!
# Finding cycles

A depth-first search keeps the nodes that it has entered but not left.  When it meets one of them there is a cycle; as
long as it has met none, no cycle goes through the nodes that it has left.  How the search keeps these nodes and what it
notes of the cycles are parameters.

The other way to find out is to look for a node without predecessors: without cycles there is one among any remaining
nodes.
-/

namespace CycleSearch

open RecursiveSearch Relation

/-- Without cycles, finitely many nodes have one without a predecessor among them. -/
lemma exists_source {V : Type*} {R : V → V → Prop} (hacyclic : ∀ v, ¬ TransGen R v v) {s : Set V} (hs : s.Finite)
    (hne : s.Nonempty) : ∃ v ∈ s, ∀ u ∈ s, ¬ R u v := by
  have horder : IsStrictOrder V (TransGen R) := { irrefl := hacyclic, trans := fun _ _ _ h h' => h.trans h' }
  have hwf : s.WellFoundedOn (TransGen R) := hs.wellFoundedOn
  obtain ⟨v, hv⟩ := hne
  obtain ⟨⟨m, hm⟩, -, hmin⟩ := WellFounded.has_min hwf Set.univ ⟨⟨v, hv⟩, trivial⟩
  exact ⟨m, hm, fun u hu hR => hmin ⟨u, hu⟩ trivial (.single hR)⟩

variable {V S : Type} {acts : Actions V S} {succ : V → List V} {nodes : List V} {entered : S → V → Prop}
  {found : S → Prop}

/-- A step along an edge. -/
def Step (succ : V → List V) (u v : V) : Prop := v ∈ succ u

/-- The search keeps the nodes that it has entered but not left, and has found a cycle when it met one of them. -/
structure Detects (acts : Actions V S) (entered : S → V → Prop) (found : S → Prop) : Prop where
  enter : ∀ v s, (∀ u, entered (acts.enter v s) u ↔ u = v ∨ entered s u) ∧ (found (acts.enter v s) ↔ found s)
  meet : ∀ w s, (∀ u, entered (acts.meet w s) u ↔ entered s u) ∧ (found (acts.meet w s) ↔ found s ∨ entered s w)
  leave : ∀ v s, (acts.stopped s = false → ∀ u, entered (acts.leave v s) u ↔ u ≠ v ∧ entered s u) ∧
    (found (acts.leave v s) ↔ found s) ∧ acts.stopped (acts.leave v s) = acts.stopped s
  stopped : ∀ s, acts.stopped s = true → found s

lemma Detects.not_stopped (h : Detects acts entered found) {s : S} (hs : ¬ found s) : acts.stopped s = false :=
  Bool.eq_false_iff.mpr fun hstop => hs (h.stopped s hstop)

/-- What is known of the marks at any time. -/
structure Inv (acts : Actions V S) (succ : V → List V) (nodes : List V) (entered : S → V → Prop) (found : S → Prop)
    (st : HashSet V × S) : Prop where
  live : ∀ v ∈ st.1, v ∈ nodes
  marked : acts.stopped st.2 = false → ∀ v, entered st.2 v → v ∈ st.1
  closed : ¬ found st.2 → ∀ u ∈ st.1, ¬ entered st.2 u → ∀ w ∈ succ u, w ∈ st.1 ∧ ¬ entered st.2 w
  acyclic : ¬ found st.2 → ∀ u ∈ st.1, ¬ entered st.2 u → ¬ TransGen (Step succ) u u
  cyclic : found st.2 → ∃ v, TransGen (Step succ) v v

/-- A walk from a node that was left leads to nodes that were left. -/
lemma Inv.closed_walk {st : HashSet V × S} (h : Inv acts succ nodes entered found st) (hnone : ¬ found st.2) {u v : V}
    (hwalk : ReflTransGen (Step succ) u v) (hu : u ∈ st.1 ∧ ¬ entered st.2 u) : v ∈ st.1 ∧ ¬ entered st.2 v := by
  induction hwalk with
  | refl => exact hu
  | tail _ hstep ih => exact h.closed hnone _ ih.1 ih.2 _ hstep

variable [DecidableEq V]

/-- Entering a node. -/
lemma Inv.enter {st : HashSet V × S} (h : Inv acts succ nodes entered found st) (hacts : Detects acts entered found)
    {v : V} (hv : v ∈ nodes) (hfresh : v ∉ st.1) (hgoing : acts.stopped st.2 = false) :
    Inv acts succ nodes entered found (st.1.add v, acts.enter v st.2) := by
  obtain ⟨hentered, hfound⟩ := hacts.enter v st.2
  have hleft : ∀ u ∈ st.1.add v, ¬ entered (acts.enter v st.2) u → u ∈ st.1 ∧ ¬ entered st.2 u := by
    intro u hu hnot
    rw [hentered, not_or] at hnot
    exact ⟨((HashSet.mem_add ..).mp hu).resolve_left hnot.1, hnot.2⟩
  refine ⟨fun u hu => ?_, fun _ u hu => ?_, fun hnone u hu hnot w hw => ?_, fun hnone u hu hnot => ?_, fun hsome => ?_⟩
  · rcases (HashSet.mem_add ..).mp hu with rfl | hu
    · exact hv
    · exact h.live u hu
  · rcases (hentered u).mp hu with rfl | hu
    · exact (HashSet.mem_add ..).mpr (.inl rfl)
    · exact (HashSet.mem_add ..).mpr (.inr (h.marked hgoing u hu))
  · obtain ⟨hu, hnot⟩ := hleft u hu hnot
    obtain ⟨hmark, hentered'⟩ := h.closed (fun hsome => hnone (hfound.mpr hsome)) u hu hnot w hw
    refine ⟨(HashSet.mem_add ..).mpr (.inr hmark), fun hmem => ?_⟩
    rcases (hentered w).mp hmem with rfl | hmem
    · exact hfresh hmark
    · exact hentered' hmem
  · obtain ⟨hu, hnot⟩ := hleft u hu hnot
    exact h.acyclic (fun hsome => hnone (hfound.mpr hsome)) u hu hnot
  · exact h.cyclic (hfound.mp hsome)

omit [DecidableEq V] in
/-- Meeting a marked successor; one that is entered closes a cycle. -/
lemma Inv.meet {st : HashSet V × S} (h : Inv acts succ nodes entered found st) (hacts : Detects acts entered found)
    {v w : V} (hw : w ∈ succ v) (hback : entered st.2 w → ReflTransGen (Step succ) w v)
    (hgoing : acts.stopped st.2 = false) : Inv acts succ nodes entered found (st.1, acts.meet w st.2) := by
  obtain ⟨hentered, hfound⟩ := hacts.meet w st.2
  have hearlier : ¬ found (acts.meet w st.2) → ¬ found st.2 := fun hnone hsome => hnone (hfound.mpr (.inl hsome))
  refine ⟨h.live, fun _ u hu => h.marked hgoing u ((hentered u).mp hu), fun hnone u hu hnot x hx => ?_,
    fun hnone u hu hnot => ?_, fun hsome => ?_⟩
  · obtain ⟨hmark, hnot'⟩ := h.closed (hearlier hnone) u hu (fun hmem => hnot ((hentered u).mpr hmem)) x hx
    exact ⟨hmark, fun hmem => hnot' ((hentered x).mp hmem)⟩
  · exact h.acyclic (hearlier hnone) u hu fun hmem => hnot ((hentered u).mpr hmem)
  · rcases hfound.mp hsome with hsome | hmem
    · exact h.cyclic hsome
    · exact ⟨v, .head' hw (hback hmem)⟩

omit [DecidableEq V] in
/-- Leaving a node whose successors were left. -/
lemma Inv.leave {st : HashSet V × S} (h : Inv acts succ nodes entered found st) (hacts : Detects acts entered found)
    {v : V} (hv : acts.stopped st.2 = false → entered st.2 v)
    (hdone : ¬ found st.2 → ∀ w ∈ succ v, w ∈ st.1 ∧ ¬ entered st.2 w) :
    Inv acts succ nodes entered found (st.1, acts.leave v st.2) := by
  obtain ⟨hentered, hfound, hstopped⟩ := hacts.leave v st.2
  have hearlier : ¬ found (acts.leave v st.2) → ¬ found st.2 := fun hnone hsome => hnone (hfound.mpr hsome)
  have hleft : ∀ u, ¬ found st.2 → ¬ entered (acts.leave v st.2) u → u = v ∨ ¬ entered st.2 u := by
    intro u hnone hnot
    rw [hentered (hacts.not_stopped hnone), not_and_or, not_not] at hnot
    exact hnot
  refine ⟨h.live, fun hgoing u hu => ?_, fun hnone u hu hnot x hx => ?_, fun hnone u hu hnot hcycle => ?_,
    fun hsome => h.cyclic (hfound.mp hsome)⟩
  · rw [hstopped] at hgoing
    exact h.marked hgoing u ((hentered hgoing u).mp hu).2
  · have hnone' := hearlier hnone
    have hold : x ∈ st.1 ∧ ¬ entered st.2 x := by
      rcases hleft u hnone' hnot with rfl | hnot
      · exact hdone hnone' x hx
      · exact h.closed hnone' u hu hnot x hx
    exact ⟨hold.1, fun hmem => hold.2 ((hentered (hacts.not_stopped hnone') x).mp hmem).2⟩
  · have hnone' := hearlier hnone
    rcases hleft u hnone' hnot with rfl | hnot
    · -- a cycle through the node leads on to a node that was left, and from there back to the node
      obtain ⟨w, hstep, hwalk⟩ := TransGen.head'_iff.mp hcycle
      exact (h.closed_walk hnone' hwalk (hdone hnone' w hstep)).2 (hv (hacts.not_stopped hnone'))
    · exact h.acyclic hnone' u hu hnot hcycle

/-- The search for cycles from one node. -/
theorem Detects.contract (hacts : Detects acts entered found) (hsucc : ∀ u, ∀ w ∈ succ u, w ∈ nodes) :
    Contract acts succ nodes
      (fun v st => Inv acts succ nodes entered found st ∧ (v ∈ nodes ∧ v ∉ st.1) ∧ acts.stopped st.2 = false ∧
        ∀ u, entered st.2 u → ReflTransGen (Step succ) u v)
      (fun v st done st' => Inv acts succ nodes entered found st' ∧ (found st.2 → found st'.2) ∧
        (acts.stopped st'.2 = false → ∀ u, entered st'.2 u ↔ u = v ∨ entered st.2 u) ∧
        (¬ found st'.2 → ∀ w ∈ done, w ∈ st'.1 ∧ ¬ entered st'.2 w))
      (fun _ st st' => Inv acts succ nodes entered found st' ∧ (found st.2 → found st'.2) ∧
        (acts.stopped st'.2 = false → ∀ u, entered st'.2 u ↔ entered st.2 u)) where
  live v st hpre := hpre.2.1
  begin v st hpre := by
    obtain ⟨hinv, ⟨hv, hfresh⟩, hgoing, -⟩ := hpre
    obtain ⟨hentered, hfound⟩ := hacts.enter v st.2
    exact ⟨hinv.enter hacts hv hfresh hgoing, hfound.mpr, fun _ => hentered,
      fun _ w hw => absurd hw List.not_mem_nil⟩
  stop v st done w st' _ hmid hstop := by
    obtain ⟨hinv, hmono, hentered, -⟩ := hmid
    exact ⟨hinv, hmono, hentered, fun hnone => absurd (hacts.stopped st'.2 hstop) hnone⟩
  meet v st done w st' hpre hmid hw hgoing hmark := by
    obtain ⟨hinv, hmono, hentered, hdone⟩ := hmid
    obtain ⟨hentered', hfound⟩ := hacts.meet w st'.2
    have hback : entered st'.2 w → ReflTransGen (Step succ) w v := by
      intro hmem
      rcases (hentered hgoing w).mp hmem with rfl | hmem
      · exact .refl
      · exact hpre.2.2.2 w hmem
    refine ⟨hinv.meet hacts hw hback hgoing, fun hsome => hfound.mpr (.inl (hmono hsome)),
      fun _ u => (hentered' u).trans (hentered hgoing u), fun hnone x hx => ?_⟩
    rcases List.mem_append.mp hx with hx | hx
    · obtain ⟨hmem, hnot⟩ := hdone (fun hsome => hnone (hfound.mpr (.inl hsome))) x hx
      exact ⟨hmem, fun h => hnot ((hentered' x).mp h)⟩
    · rw [List.mem_singleton.mp hx]
      exact ⟨hmark, fun h => hnone (hfound.mpr (.inr ((hentered' w).mp h)))⟩
  call v st done w st' hpre hmid hw hgoing hmark := by
    obtain ⟨hinv, hmono, hentered, hdone⟩ := hmid
    refine ⟨⟨hinv, ⟨hsucc v w hw, hmark⟩, hgoing, fun u hu => ?_⟩, fun st'' hpost hgrow => ?_⟩
    · rcases (hentered hgoing u).mp hu with rfl | hu
      · exact .single hw
      · exact (hpre.2.2.2 u hu).tail hw
    · obtain ⟨hinv', hmono', hentered'⟩ := hpost
      refine ⟨hinv', fun hsome => hmono' (hmono hsome), fun hgoing' u => (hentered' hgoing' u).trans (hentered hgoing u),
        fun hnone x hx => ?_⟩
      have hsame := hentered' (hacts.not_stopped hnone)
      rcases List.mem_append.mp hx with hx | hx
      · obtain ⟨hmem, hnot⟩ := hdone (fun hsome => hnone (hmono' hsome)) x hx
        exact ⟨hgrow x (.inr hmem), fun h => hnot ((hsame x).mp h)⟩
      · rw [List.mem_singleton.mp hx]
        exact ⟨hgrow w (.inl rfl), fun h => hmark (hinv.marked hgoing w ((hsame w).mp h))⟩
  finish v st st' hpre hmid _ := by
    obtain ⟨hinv, hmono, hentered, hdone⟩ := hmid
    obtain ⟨hleave, hfound, hstopped⟩ := hacts.leave v st'.2
    refine ⟨hinv.leave hacts (fun hgoing => (hentered hgoing v).mpr (.inl rfl)) hdone,
      fun hsome => hfound.mpr (hmono hsome), fun hgoing u => ?_⟩
    rw [show acts.stopped (acts.leave v st'.2) = _ from hstopped] at hgoing
    have hfresh : entered st.2 u → u ≠ v := fun hmem heq => hpre.2.1.2 (heq ▸ hpre.1.marked hpre.2.2.1 u hmem)
    refine (hleave hgoing u).trans ?_
    rw [hentered hgoing u]
    tauto

/-- The search from all nodes finds a cycle exactly when there is one. -/
theorem Detects.visitAll (hacts : Detects acts entered found) (hsucc : ∀ u, ∀ w ∈ succ u, w ∈ nodes) {s : S}
    (hentered : ∀ u, ¬ entered s u) (hfound : ¬ found s) :
    ∃ st, (found st.2 ↔ ∃ v, TransGen (Step succ) v v) ∧
      WithFuel (fun fuel => RecursiveSearch.visitAll acts succ fuel nodes (∅, s)) (· = some st) := by
  have hstart : Inv acts succ nodes entered found (∅, s) :=
    ⟨fun v hv => absurd hv (AList.notMem_empty v), fun _ v hv => absurd hv (hentered v),
      fun _ v hv => absurd hv (AList.notMem_empty v), fun _ v hv => absurd hv (AList.notMem_empty v),
      fun hsome => absurd hsome hfound⟩
  obtain ⟨st, ⟨hinv, hdone, hleft⟩, hrun⟩ := (hacts.contract hsucc).visitAll nodes (∅, s)
    (fun done st => Inv acts succ nodes entered found st ∧ (¬ found st.2 → ∀ v ∈ done, v ∈ st.1) ∧
      (acts.stopped st.2 = false → ∀ u, ¬ entered st.2 u))
    (fun done v st hall hstop => by
      obtain ⟨hinv, -, hleft⟩ := hall
      exact ⟨hinv, fun hnone => absurd (hacts.stopped st.2 hstop) hnone, hleft⟩)
    (fun done v st hall _ hmark => by
      obtain ⟨hinv, hdone, hleft⟩ := hall
      refine ⟨hinv, fun hnone u hu => ?_, hleft⟩
      rcases List.mem_append.mp hu with hu | hu
      · exact hdone hnone u hu
      · rw [List.mem_singleton.mp hu]
        exact hmark)
    (fun done v st hall hv hgoing hmark => by
      obtain ⟨hinv, hdone, hleft⟩ := hall
      refine ⟨⟨hinv, ⟨hv, hmark⟩, hgoing, fun u hu => absurd hu (hleft hgoing u)⟩, fun st' hpost hgrow => ?_⟩
      obtain ⟨hinv', hmono, hsame⟩ := hpost
      refine ⟨hinv', fun hnone u hu => ?_, fun hgoing' u hu => hleft hgoing u ((hsame hgoing' u).mp hu)⟩
      rcases List.mem_append.mp hu with hu | hu
      · exact hgrow u (.inr (hdone (fun hsome => hnone (hmono hsome)) u hu))
      · exact hgrow u (.inl (List.mem_singleton.mp hu)))
    ⟨hstart, fun _ v hv => absurd hv List.not_mem_nil, fun _ => hentered⟩
  refine ⟨st, ⟨hinv.cyclic, fun ⟨v, hcycle⟩ => ?_⟩, hrun⟩
  by_contra hnone
  obtain ⟨u, -, hstep⟩ := TransGen.tail'_iff.mp hcycle
  exact hinv.acyclic hnone v (hdone hnone v (hsucc u v hstep)) (hleft (hacts.not_stopped hnone) v) hcycle

end CycleSearch
