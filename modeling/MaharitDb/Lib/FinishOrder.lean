import Mathlib.Logic.Relation
import MaharitDb.Lib.RecursiveSearch

/-!
# The order in which a depth-first search finishes

A depth-first search lists the nodes in the order in which it leaves them.  When an edge leads to a node that is left
later, that node was entered before and reaches everything that is left in between; so a node that lies before another
one in the order, and reaches it without passing later ones, is reached by it.  The strongly connected components are
therefore found by searching backwards from the nodes in the reverse order.
-/

namespace FinishOrder

open RecursiveSearch Relation

variable {V : Type} [DecidableEq V]

/-- List the nodes as they are left. -/
def finishing : Actions V (List V) where
  enter _ order := order
  meet _ order := order
  leave v order := order ++ [v]
  stopped _ := false

/-- A walk along the successors. -/
def Reach (succ : V → List V) : V → V → Prop := ReflTransGen fun u v => v ∈ succ u

variable {succ : V → List V} {nodes : List V}

/-- The marks and the order of a search at any time. -/
structure Finished (succ : V → List V) (nodes : List V) (visited : HashSet V) (order : List V) : Prop where
  live : ∀ v ∈ visited, v ∈ nodes
  marked : ∀ v ∈ order, v ∈ visited
  nodup : order.Nodup
  closed : ∀ p ∈ order, ∀ q ∈ succ p, q ∈ visited
  /-- A successor that is left later reaches what is left in between. -/
  later : ∀ p ∈ order, ∀ q ∈ succ p, ∀ x ∈ order, order.idxOf p ≤ order.idxOf x → order.idxOf x < order.idxOf q →
    Reach succ q x

/-- One more node is left; it is reached from all nodes that have been entered but not left. -/
lemma Finished.leave {visited : HashSet V} {order : List V} (h : Finished succ nodes visited order) {v : V}
    (hv : v ∈ visited) (hnew : v ∉ order) (hsucc : ∀ q ∈ succ v, q ∈ visited)
    (hopen : ∀ q ∈ visited, q ∉ order → Reach succ q v) : Finished succ nodes visited (order ++ [v]) where
  live := h.live
  marked u hu := by
    rcases List.mem_append.mp hu with hu | hu
    · exact h.marked u hu
    · rw [List.mem_singleton.mp hu]
      exact hv
  nodup := by
    refine List.nodup_append.mpr ⟨h.nodup, List.nodup_singleton v, fun a ha b hb hab => ?_⟩
    rw [List.mem_singleton.mp hb] at hab
    exact hnew (hab ▸ ha)
  closed p hp := by
    rcases List.mem_append.mp hp with hp | hp
    · exact h.closed p hp
    · rw [List.mem_singleton.mp hp]
      exact hsucc
  later p hp q hq x hx hpx hxq := by
    have hold : ∀ a ∈ order, (order ++ [v]).idxOf a = order.idxOf a := fun a ha => List.idxOf_append_of_mem ha
    have hlast : (order ++ [v]).idxOf v = order.length := by
      rw [List.idxOf_append_of_notMem hnew]
      simp
    -- a node that lies behind the new one has not been left
    have hbehind : order.length < (order ++ [v]).idxOf q → q ∉ order := by
      intro hlt hmem
      rw [hold q hmem] at hlt
      exact absurd (List.idxOf_lt_length_iff.mpr hmem) (Nat.lt_asymm hlt)
    rcases List.mem_append.mp hx with hx | hx
    · have hp' : p ∈ order := by
        rcases List.mem_append.mp hp with hp | hp
        · exact hp
        · rw [List.mem_singleton.mp hp, hlast, hold x hx] at hpx
          exact absurd (List.idxOf_lt_length_iff.mpr hx) (Nat.not_lt.mpr hpx)
      rw [hold p hp', hold x hx] at hpx
      refine h.later p hp' q hq x hx hpx ?_
      by_cases hqmem : q ∈ order
      · rwa [hold x hx, hold q hqmem] at hxq
      · rw [List.idxOf_eq_length_iff.mpr hqmem]
        exact List.idxOf_lt_length_iff.mpr hx
    · rw [List.mem_singleton.mp hx] at hxq ⊢
      rw [hlast] at hxq
      have hqvisited : q ∈ visited := by
        rcases List.mem_append.mp hp with hp | hp
        · exact h.closed p hp q hq
        · rw [List.mem_singleton.mp hp] at hq
          exact hsucc q hq
      exact hopen q hqvisited (hbehind hxq)

/-- The search that lists the nodes as it leaves them: the nodes that are entered but not left stay the same. -/
theorem contract_finishing (hsucc : ∀ u, ∀ w ∈ succ u, w ∈ nodes) :
    Contract finishing succ nodes
      (fun v st => Finished succ nodes st.1 st.2 ∧ (v ∈ nodes ∧ v ∉ st.1) ∧ ∀ q ∈ st.1, q ∉ st.2 → Reach succ q v)
      (fun v st done st' => Finished succ nodes st'.1 st'.2 ∧ (∀ w ∈ done, w ∈ st'.1) ∧
        ∀ u, u ∈ st'.1 ∧ u ∉ st'.2 ↔ u = v ∨ u ∈ st.1 ∧ u ∉ st.2)
      (fun v st st' => Finished succ nodes st'.1 st'.2 ∧ v ∈ st'.2 ∧
        ∀ u, u ∈ st'.1 ∧ u ∉ st'.2 ↔ u ∈ st.1 ∧ u ∉ st.2) where
  live v st hpre := hpre.2.1
  begin v st hpre := by
    obtain ⟨hfinished, ⟨hlive, hfresh⟩, -⟩ := hpre
    have hnew : v ∉ st.2 := fun hmem => hfresh (hfinished.marked v hmem)
    refine ⟨⟨fun u hu => ?_, fun u hu => ?_, hfinished.nodup, fun p hp q hq => ?_, hfinished.later⟩,
      fun w hw => absurd hw List.not_mem_nil, fun u => ?_⟩
    · rcases (HashSet.mem_add ..).mp hu with rfl | hu
      · exact hlive
      · exact hfinished.live u hu
    · exact (HashSet.mem_add ..).mpr (.inr (hfinished.marked u hu))
    · exact (HashSet.mem_add ..).mpr (.inr (hfinished.closed p hp q hq))
    · rw [HashSet.mem_add]
      constructor
      · rintro ⟨rfl | hu, hnot⟩
        · exact .inl rfl
        · exact .inr ⟨hu, hnot⟩
      · rintro (rfl | ⟨hu, hnot⟩)
        · exact ⟨.inl rfl, hnew⟩
        · exact ⟨.inr hu, hnot⟩
  stop v st done w st' _ _ hstop := by cases hstop
  meet v st done w st' _ hmid _ _ hmark := by
    obtain ⟨hfinished, hdone, hopen⟩ := hmid
    refine ⟨hfinished, fun x hx => ?_, hopen⟩
    rcases List.mem_append.mp hx with hx | hx
    · exact hdone x hx
    · rw [List.mem_singleton.mp hx]
      exact hmark
  call v st done w st' hpre hmid hw _ hmark := by
    obtain ⟨hfinished, hdone, hopen⟩ := hmid
    refine ⟨⟨hfinished, ⟨hsucc v w hw, hmark⟩, fun q hq hnot => ?_⟩, fun st'' hpost hgrow => ?_⟩
    · rcases (hopen q).mp ⟨hq, hnot⟩ with rfl | ⟨hq, hnot⟩
      · exact .single hw
      · exact (hpre.2.2 q hq hnot).tail hw
    · obtain ⟨hfinished', -, hopen'⟩ := hpost
      refine ⟨hfinished', fun x hx => ?_, fun u => (hopen' u).trans (hopen u)⟩
      rcases List.mem_append.mp hx with hx | hx
      · exact hgrow x (.inr (hdone x hx))
      · exact hgrow x (.inl (List.mem_singleton.mp hx))
  finish v st st' hpre hmid _ := by
    obtain ⟨hfinished, hdone, hopen⟩ := hmid
    obtain ⟨hv, hnew⟩ := (hopen v).mpr (.inl rfl)
    refine ⟨hfinished.leave hv hnew hdone fun q hq hnot => ?_, List.mem_append_right _ (List.mem_singleton_self v),
      fun u => ?_⟩
    · rcases (hopen q).mp ⟨hq, hnot⟩ with rfl | ⟨hq, hnot⟩
      · exact .refl
      · exact hpre.2.2 q hq hnot
    · have huv := hopen u
      have hfresh := hpre.2.1.2
      show u ∈ st'.1 ∧ u ∉ st'.2 ++ [v] ↔ _
      rw [List.mem_append, List.mem_singleton, not_or]
      constructor
      · rintro ⟨hu, hnot, hne⟩
        exact (huv.mp ⟨hu, hnot⟩).resolve_left hne
      · rintro ⟨hu, hnot⟩
        obtain ⟨hu', hnot'⟩ := huv.mpr (.inr ⟨hu, hnot⟩)
        exact ⟨hu', hnot', fun heq => hfresh (heq ▸ hu)⟩

/-- The order in which the search from all nodes finishes. -/
theorem finishOrder_withFuel (hnodup : nodes.Nodup) (hsucc : ∀ u, ∀ w ∈ succ u, w ∈ nodes) :
    ∃ visited order, Finished succ nodes visited order ∧ order.Perm nodes ∧
      WithFuel (fun fuel => visitAll finishing succ fuel nodes (∅, [])) (· = some (visited, order)) := by
  obtain ⟨⟨visited, order⟩, ⟨hfinished, hclosed, hdone⟩, hrun⟩ := (contract_finishing hsucc).visitAll nodes (∅, [])
    (fun done st => Finished succ nodes st.1 st.2 ∧ (∀ u ∈ st.1, u ∈ st.2) ∧ ∀ v ∈ done, v ∈ st.1)
    (fun done v st _ hstop => by cases hstop)
    (fun done v st hinv _ hmark => by
      obtain ⟨hfinished, hclosed, hdone⟩ := hinv
      refine ⟨hfinished, hclosed, fun u hu => ?_⟩
      rcases List.mem_append.mp hu with hu | hu
      · exact hdone u hu
      · rw [List.mem_singleton.mp hu]
        exact hmark)
    (fun done v st hinv hv _ hmark => by
      obtain ⟨hfinished, hclosed, hdone⟩ := hinv
      refine ⟨⟨hfinished, ⟨hv, hmark⟩, fun q hq hnot => absurd (hclosed q hq) hnot⟩, fun st' hpost hgrow => ?_⟩
      obtain ⟨hfinished', -, hopen⟩ := hpost
      refine ⟨hfinished', fun u hu => ?_, fun u hu => ?_⟩
      · by_contra hnot
        obtain ⟨hu, hnot⟩ := (hopen u).mp ⟨hu, hnot⟩
        exact hnot (hclosed u hu)
      · rcases List.mem_append.mp hu with hu | hu
        · exact hgrow u (.inr (hdone u hu))
        · exact hgrow u (.inl (List.mem_singleton.mp hu)))
    ⟨⟨fun v hv => absurd hv (AList.notMem_empty v), fun v hv => absurd hv List.not_mem_nil, List.nodup_nil,
      fun p hp => absurd hp List.not_mem_nil, fun p hp => absurd hp List.not_mem_nil⟩,
      fun u hu => absurd hu (AList.notMem_empty u), fun v hv => absurd hv List.not_mem_nil⟩
  refine ⟨visited, order, hfinished, ?_, hrun⟩
  refine (List.perm_ext_iff_of_nodup hfinished.nodup hnodup).mpr fun v => ⟨fun hv => ?_, fun hv => ?_⟩
  · exact hfinished.live v (hfinished.marked v hv)
  · exact hclosed v (hdone v hv)

/-- A node that reaches another one without passing later nodes is reached by it. -/
theorem Finished.reach_back {visited : HashSet V} {order : List V} (h : Finished succ nodes visited order) {r y : V}
    (hr : r ∈ order)
    (hpath : ReflTransGen (fun u v => v ∈ succ u ∧ u ∈ order ∧ order.idxOf u ≤ order.idxOf r) y r) :
    ∀ x ∈ order, order.idxOf y ≤ order.idxOf x → order.idxOf x ≤ order.idxOf r → Reach succ r x := by
  induction hpath using ReflTransGen.head_induction_on with
  | refl =>
    intro x hx hle hge
    rw [(List.idxOf_inj hr).mp (le_antisymm hle hge)]
    exact .refl
  | @head y y' hstep hrest ih =>
    obtain ⟨hedge, hy, -⟩ := hstep
    intro x hx hle hge
    rcases Nat.lt_or_ge (order.idxOf x) (order.idxOf y') with hlt | hge'
    · -- the next node lies behind `x`, so it reaches `x`
      have hy' : y' ∈ order ∧ order.idxOf y' ≤ order.idxOf r := by
        rcases hrest.cases_head with heq | ⟨z, ⟨-, hmem, hle'⟩, -⟩
        · rw [heq]
          exact ⟨hr, le_rfl⟩
        · exact ⟨hmem, hle'⟩
      exact (ih y' hy'.1 le_rfl hy'.2).trans (h.later y hy y' hedge x hx hle hlt)
    · exact ih x hx hge' hge

end FinishOrder
