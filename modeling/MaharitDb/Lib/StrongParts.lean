import MaharitDb.Lib.FinishOrder
import MaharitDb.Lib.Partition

/-!
# Strongly connected components

The second pass of the search for strongly connected components: it searches against the edges, from the nodes in the
reverse of the order in which the first pass left them, and takes together what one search marks.  What is marked is
closed against the edges, so a search finds exactly the nodes from which its first node is reached and that are not in
an earlier component; the order of the first pass says that they are reached in turn.
-/

namespace FinishOrder

open RecursiveSearch Relation

variable {V : Type}

/-- Each of two nodes is reached from the other. -/
def Mutual (succ : V → List V) (u v : V) : Prop := Reach succ u v ∧ Reach succ v u

variable {succ pred : V → List V} {nodes : List V}

lemma Mutual.symm {u v : V} (h : Mutual succ u v) : Mutual succ v u := ⟨h.2, h.1⟩

lemma Mutual.trans {u v w : V} (h : Mutual succ u v) (h' : Mutual succ v w) : Mutual succ u w :=
  ⟨h.1.trans h'.1, h'.2.trans h.2⟩

variable [DecidableEq V]

/-- Collect the nodes that are entered. -/
def collecting : Actions V (HashSet V) where
  enter v component := component.add v
  meet _ component := component
  leave _ component := component
  stopped _ := false

/-- The turn of a node in the second pass: the marks, and the components that are complete. -/
def collectPart (pred : V → List V) (fuel : ℕ) (found : HashSet V × List (HashSet V)) (r : V) :
    Option (HashSet V × List (HashSet V)) :=
  if r ∈ found.1 then some found
  else (visit collecting pred fuel r (found.1, ∅)).map fun st => (st.1, found.2 ++ [st.2])

/-! ## One search against the edges -/

/-- A search from `v` that has marked the nodes of `after` beyond those of `before`. -/
structure Collected (pred : V → List V) (nodes : List V) (v : V) (before after : HashSet V × HashSet V) : Prop where
  grow : ∀ u ∈ before.1, u ∈ after.1
  start : v ∈ after.1
  component : ∀ u, u ∈ after.2 ↔ u ∈ before.2 ∨ u ∈ after.1 ∧ u ∉ before.1
  live : ∀ u ∈ after.1, u ∉ before.1 → u ∈ nodes
  /-- A walk leads to the first node that avoids the earlier marks. -/
  path : ∀ u ∈ after.1, u ∉ before.1 → ReflTransGen (fun a b => a ∈ pred b ∧ a ∉ before.1) u v

/-- A search from a predecessor comes back. -/
lemma Collected.trans {v w : V} {before mid after : HashSet V × HashSet V} (h : Collected pred nodes v before mid)
    (h' : Collected pred nodes w mid after) (hw : w ∈ pred v) (hfresh : w ∉ mid.1) :
    Collected pred nodes v before after where
  grow u hu := h'.grow u (h.grow u hu)
  start := h'.grow v h.start
  component u := by
    have hmid := h.grow u
    have hafter := h'.grow u
    rw [h'.component, h.component]
    tauto
  live u hu hnew := by
    by_cases hmid : u ∈ mid.1
    · exact h.live u hmid hnew
    · exact h'.live u hu hmid
  path u hu hnew := by
    by_cases hmid : u ∈ mid.1
    · exact h.path u hmid hnew
    · have hfirst := h'.path u hu hmid
      have havoid : ReflTransGen (fun a b => a ∈ pred b ∧ a ∉ before.1) u w := by
        exact hfirst.lift id fun a b hab => ⟨hab.1, fun hmem => hab.2 (h.grow a hmem)⟩
      exact havoid.tail ⟨hw, fun hmem => hfresh (h.grow w hmem)⟩

/-- The search that collects: at its end the new marks are closed against the edges. -/
theorem contract_collecting (hpred : ∀ v, ∀ u ∈ pred v, u ∈ nodes) :
    Contract collecting pred nodes (fun v st => v ∈ nodes ∧ v ∉ st.1)
      (fun v st done st' => Collected pred nodes v st st' ∧ (∀ w ∈ done, w ∈ st'.1) ∧
        ∀ u ∈ st'.1, u ∉ st.1 → u ≠ v → ∀ w ∈ pred u, w ∈ st'.1)
      (fun v st st' => Collected pred nodes v st st' ∧ ∀ u ∈ st'.1, u ∉ st.1 → ∀ w ∈ pred u, w ∈ st'.1) where
  live v st hpre := hpre
  begin v st hpre := by
    have honly : ∀ u ∈ st.1.add v, u ∉ st.1 → u = v := by
      intro u hu hnew
      exact ((HashSet.mem_add ..).mp hu).resolve_right hnew
    refine ⟨⟨fun u hu => (HashSet.mem_add ..).mpr (.inr hu), (HashSet.mem_add ..).mpr (.inl rfl), fun u => ?_,
      fun u hu hnew => ?_, fun u hu hnew => ?_⟩, fun w hw => absurd hw List.not_mem_nil,
      fun u hu hnew hne => absurd (honly u hu hnew) hne⟩
    · show u ∈ st.2.add v ↔ u ∈ st.2 ∨ u ∈ st.1.add v ∧ u ∉ st.1
      rw [HashSet.mem_add, HashSet.mem_add]
      constructor
      · rintro (rfl | hu)
        · exact .inr ⟨.inl rfl, hpre.2⟩
        · exact .inl hu
      · rintro (hu | ⟨rfl | hu, hnew⟩)
        · exact .inr hu
        · exact .inl rfl
        · exact absurd hu hnew
    · rw [honly u hu hnew]
      exact hpre.1
    · rw [honly u hu hnew]
  stop v st done w st' _ _ hstop := by cases hstop
  meet v st done w st' _ hmid _ _ hmark := by
    obtain ⟨hcollected, hdone, hclosed⟩ := hmid
    refine ⟨hcollected, fun x hx => ?_, hclosed⟩
    rcases List.mem_append.mp hx with hx | hx
    · exact hdone x hx
    · rw [List.mem_singleton.mp hx]
      exact hmark
  call v st done w st' hpre hmid hw _ hmark := by
    obtain ⟨hcollected, hdone, hclosed⟩ := hmid
    refine ⟨⟨hpred v w hw, hmark⟩, fun st'' hpost _ => ?_⟩
    obtain ⟨hcollected', hclosed'⟩ := hpost
    refine ⟨hcollected.trans hcollected' hw hmark, fun x hx => ?_, fun u hu hnew hne x hx => ?_⟩
    · rcases List.mem_append.mp hx with hx | hx
      · exact hcollected'.grow x (hdone x hx)
      · rw [List.mem_singleton.mp hx]
        exact hcollected'.start
    · by_cases hmid : u ∈ st'.1
      · exact hcollected'.grow x (hclosed u hmid hnew hne x hx)
      · exact hclosed' u hu hmid x hx
  finish v st st' _ hmid _ := by
    obtain ⟨hcollected, hdone, hclosed⟩ := hmid
    refine ⟨hcollected, fun u hu hnew w hw => ?_⟩
    by_cases hv : u = v
    · exact hdone w (hv ▸ hw)
    · exact hclosed u hu hnew hv w hw

/-! ## The second pass -/

/-- The components that are complete. -/
structure Found (succ pred : V → List V) (nodes done : List V) (found : HashSet V × List (HashSet V)) : Prop where
  marked : ∀ u, u ∈ found.1 ↔ ∃ p ∈ found.2, u ∈ p
  live : ∀ u ∈ found.1, u ∈ nodes
  done : ∀ u ∈ done, u ∈ found.1
  closed : ∀ u ∈ found.1, ∀ w ∈ pred u, w ∈ found.1
  nonempty : ∀ p ∈ found.2, ∃ u, u ∈ p
  disjoint : found.2.Pairwise fun p q => ∀ u, u ∈ p → u ∉ q
  classes : ∀ p ∈ found.2, ∀ u ∈ p, ∀ v, v ∈ p ↔ Mutual succ u v

omit [DecidableEq V] in
/-- What is marked is closed against walks. -/
lemma closed_reach {marks : HashSet V} (hpred : ∀ u v, u ∈ pred v ↔ v ∈ succ u)
    (hclosed : ∀ u ∈ marks, ∀ w ∈ pred u, w ∈ marks) {u v : V} (hreach : Reach succ u v) (hv : v ∈ marks) :
    u ∈ marks := by
  induction hreach using ReflTransGen.head_induction_on with
  | refl => exact hv
  | head hstep _ ih => exact hclosed _ ih _ ((hpred ..).mpr hstep)

/-- A search from a new node finds exactly the nodes that it shares walks with. -/
lemma Found.mem_component (hpred : ∀ u v, u ∈ pred v ↔ v ∈ succ u) {visited : HashSet V} {order : List V}
    (horder : Finished succ nodes visited order) (hperm : order.Perm nodes) {done rest : List V}
    {found : HashSet V × List (HashSet V)} (h : Found succ pred nodes done found) {r : V} (hr : r ∉ found.1)
    (hsplit : order.reverse = done ++ r :: rest) {st : HashSet V × HashSet V}
    (hst : Collected pred nodes r (found.1, ∅) st)
    (hclosed : ∀ u ∈ st.1, u ∉ found.1 → ∀ w ∈ pred u, w ∈ st.1) (v : V) : v ∈ st.2 ↔ Mutual succ r v := by
  have horder' : order = rest.reverse ++ r :: done.reverse := by
    rw [← List.reverse_reverse order, hsplit]
    simp
  have hrmem : r ∈ order := by
    rw [horder']
    simp
  -- what is not marked comes before the node in the order
  have hbefore : ∀ u ∈ order, u ∉ found.1 → order.idxOf u ≤ order.idxOf r := by
    intro u hu hnew
    have hnodup := horder.nodup
    rw [horder'] at hu hnodup ⊢
    have hrrest : r ∉ rest.reverse := fun hmem => (List.nodup_append.mp hnodup).2.2 r hmem r List.mem_cons_self rfl
    rw [List.idxOf_append_of_notMem hrrest]
    rcases List.mem_append.mp hu with hu | hu
    · rw [List.idxOf_append_of_mem hu]
      exact (List.idxOf_lt_length_iff.mpr hu).le.trans (Nat.le_add_right _ _)
    · rcases List.mem_cons.mp hu with rfl | hu
      · rw [List.idxOf_append_of_notMem hrrest]
      · exact absurd (h.done u (List.mem_reverse.mp hu)) hnew
  have hcomponent : v ∈ st.2 ↔ v ∈ st.1 ∧ v ∉ found.1 := by
    rw [hst.component]
    exact ⟨fun hv => hv.resolve_left (AList.notMem_empty v), .inr⟩
  have hall : ∀ u ∈ st.1, ∀ w ∈ pred u, w ∈ st.1 := by
    intro u hu w hw
    by_cases hold : u ∈ found.1
    · exact hst.grow w (h.closed u hold w hw)
    · exact hclosed u hu hold w hw
  rw [hcomponent]
  constructor
  · rintro ⟨hv, hnew⟩
    have hpath := hst.path v hv hnew
    have hvr : Reach succ v r := hpath.lift id fun a b hab => (hpred a b).mp hab.1
    have hvorder : v ∈ order := hperm.mem_iff.mpr (hst.live v hv hnew)
    refine ⟨horder.reach_back hrmem ?_ v hvorder le_rfl (hbefore v hvorder hnew), hvr⟩
    have hin : ∀ a, a ∉ found.1 → Reach succ a r → a ∈ order ∧ order.idxOf a ≤ order.idxOf r := by
      intro a hnew hreach
      have ha : a ∈ st.1 := closed_reach hpred hall hreach hst.start
      have horder := hperm.mem_iff.mpr (hst.live a ha hnew)
      exact ⟨horder, hbefore a horder hnew⟩
    clear hv hnew hvr hvorder hcomponent
    induction hpath using ReflTransGen.head_induction_on with
    | refl => exact .refl
    | @head a b hstep hrest ih =>
      have hreach : Reach succ a r :=
        .head ((hpred a b).mp hstep.1) (hrest.lift id fun a b hab => (hpred a b).mp hab.1)
      exact ih.head ⟨(hpred a b).mp hstep.1, hin a hstep.2 hreach⟩
  · rintro ⟨hrv, hvr⟩
    refine ⟨closed_reach hpred hall hvr hst.start, fun hold => hr ?_⟩
    obtain ⟨p, hp, hv⟩ := (h.marked v).mp hold
    exact (h.marked r).mpr ⟨p, hp, (h.classes p hp v hv r).mpr ⟨hvr, hrv⟩⟩

/-- The second pass gives the partition into the classes of nodes that are reached from one another. -/
theorem collectParts_withFuel (hpred : ∀ u v, u ∈ pred v ↔ v ∈ succ u) (hlive : ∀ u, ∀ w ∈ succ u, u ∈ nodes)
    {visited : HashSet V} {order : List V} (horder : Finished succ nodes visited order) (hperm : order.Perm nodes) :
    ∃ found, IsPartition nodes (Mutual succ) found.2 ∧
      WithFuel (fun fuel => order.reverse.foldlM (collectPart pred fuel) (∅, [])) (· = some found) := by
  have hcontract := contract_collecting fun v u hu => hlive u v ((hpred u v).mp hu)
  have hstart : Found succ pred nodes [] (∅, []) :=
    ⟨fun u => ⟨fun hu => absurd hu (AList.notMem_empty u), fun ⟨p, hp, _⟩ => absurd hp List.not_mem_nil⟩,
      fun u hu => absurd hu (AList.notMem_empty u), fun u hu => absurd hu List.not_mem_nil,
      fun u hu => absurd hu (AList.notMem_empty u), fun p hp => absurd hp List.not_mem_nil, .nil,
      fun p hp => absurd hp List.not_mem_nil⟩
  obtain ⟨found, hfound, hrun⟩ := Loop.foldlM_withFuel (Found succ pred nodes) (f := collectPart pred) order.reverse
    (fun done r rest found hsplit hfound => by
      have hrlive : r ∈ nodes := by
        rw [← hperm.mem_iff, ← List.mem_reverse, hsplit]
        simp
      by_cases hr : r ∈ found.1
      · refine ⟨found, { hfound with done := fun u hu => ?_ }, WithFuel.of_forall fun _ => if_pos hr⟩
        rcases List.mem_append.mp hu with hu | hu
        · exact hfound.done u hu
        · rw [List.mem_singleton.mp hu]
          exact hr
      · obtain ⟨st, ⟨⟨hst, hclosed⟩, -⟩, hrun⟩ := hcontract.visit
          (show r ∈ nodes ∧ r ∉ (found.1, (∅ : HashSet V)).1 from ⟨hrlive, hr⟩)
        have hmem := hfound.mem_component hpred horder hperm hr hsplit hst hclosed
        have hnew : ∀ u, u ∈ st.2 ↔ u ∈ st.1 ∧ u ∉ found.1 := by
          intro u
          rw [hst.component]
          exact ⟨fun hu => hu.resolve_left (AList.notMem_empty u), .inr⟩
        refine ⟨(st.1, found.2 ++ [st.2]), ⟨fun u => ?_, fun u hu => ?_, fun u hu => ?_, fun u hu w hw => ?_,
          fun p hp => ?_, ?_, fun p hp u hu v => ?_⟩, ?_⟩
        · have hold := hfound.marked u
          have hgrow := hst.grow u
          simp only [List.mem_append, List.mem_singleton, or_and_right, exists_or, exists_eq_left, hnew, ← hold]
          tauto
        · by_cases hold : u ∈ found.1
          · exact hfound.live u hold
          · exact hst.live u hu hold
        · rcases List.mem_append.mp hu with hu | hu
          · exact hst.grow u (hfound.done u hu)
          · rw [List.mem_singleton.mp hu]
            exact hst.start
        · by_cases hold : u ∈ found.1
          · exact hst.grow w (hfound.closed u hold w hw)
          · exact hclosed u hu hold w hw
        · rcases List.mem_append.mp hp with hp | hp
          · exact hfound.nonempty p hp
          · rw [List.mem_singleton.mp hp]
            exact ⟨r, (hnew r).mpr ⟨hst.start, hr⟩⟩
        · refine List.pairwise_append.mpr ⟨hfound.disjoint, List.pairwise_singleton .., fun p hp q hq u hu => ?_⟩
          rw [List.mem_singleton.mp hq]
          exact fun hmem => ((hnew u).mp hmem).2 ((hfound.marked u).mpr ⟨p, hp, hu⟩)
        · rcases List.mem_append.mp hp with hp | hp
          · exact hfound.classes p hp u hu v
          · rw [List.mem_singleton.mp hp] at hu ⊢
            have hru := (hmem u).mp hu
            rw [hmem v]
            exact ⟨fun hrv => hru.symm.trans hrv, fun huv => hru.trans huv⟩
        · unfold collectPart
          simp only [if_neg hr]
          exact WithFuel.map (f := Option.map fun st : HashSet V × HashSet V => (st.1, found.2 ++ [st.2]))
            (R := (· = some (st.1, found.2 ++ [st.2]))) hrun fun r hr => by rw [hr, Option.map_some])
    hstart
  refine ⟨found, ⟨hfound.nonempty, hfound.disjoint, fun v => ?_, fun p hp u hu v _ => hfound.classes p hp u hu v⟩, hrun⟩
  rw [← hfound.marked]
  exact ⟨fun hv => hfound.done v (List.mem_reverse.mpr (hperm.mem_iff.mpr hv)), hfound.live v⟩

end FinishOrder
