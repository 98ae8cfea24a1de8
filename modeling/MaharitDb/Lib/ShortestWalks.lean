import Mathlib.Data.List.Perm.Basic
import MaharitDb.Lib.BreadthFirst

/-!
# All shortest walks

The walks of a given number of edges to a node, listed by going back along its incoming edges.  A breadth-first search
meets exactly the last edges of the shortest ones, so the shortest walks to a node are those to its predecessors, each
with one more edge.
-/

namespace Walks

variable {V E : Type} [DecidableEq V]

/-- No walk between the two nodes has fewer edges. -/
def IsShortest (link : V → E → V → Prop) (start stop : V) (p : List V × List E) : Prop :=
  WalksTo link start stop p.1 p.2 ∧ ∀ nodes edges, WalksTo link start stop nodes edges → p.2.length ≤ edges.length

omit [DecidableEq V] in
lemma isShortest_iff {link : V → E → V → Prop} {start stop : V} {p : List V × List E} :
    IsShortest link start stop p ↔ WalksTo link start stop p.1 p.2 ∧ IsDist link start p.2.length stop := by
  refine and_congr_right fun hwalks => ⟨fun hleast => ⟨hwalks.reaches, fun j hj hreach => ?_⟩, fun hdist => ?_⟩
  · obtain ⟨nodes, edges, hwalks', hlength⟩ := hreach.exists_walksTo
    have hle := hleast nodes edges hwalks'
    omega
  · intro nodes edges hwalks'
    by_contra hlt
    exact hdist.2 _ (Nat.lt_of_not_le hlt) hwalks'.reaches

/-- The walks with so many edges from the start to a node, given the edges that enter each node. -/
def walksOf (source : E → V) (into : V → List E) (start : V) : ℕ → V → List (List V × List E)
  | 0, v => if v = start then [([v], [])] else []
  | k + 1, v => (into v).flatMap fun e =>
      (walksOf source into start k (source e)).map fun p => (p.1 ++ [v], p.2 ++ [e])

variable {source target : E → V} {out into : V → List E} {start : V}

theorem mem_walksOf (hinto : ∀ v e, e ∈ into v ↔ e ∈ out (source e) ∧ target e = v) {k : ℕ} {v : V}
    {p : List V × List E} :
    p ∈ walksOf source into start k v ↔
      WalksTo (Search.Link source target out) start v p.1 p.2 ∧ p.2.length = k := by
  induction k generalizing v p with
  | zero =>
    rw [walksOf]
    constructor
    · intro hp
      by_cases hv : v = start
      · rw [if_pos hv] at hp
        rw [List.mem_singleton.mp hp, hv]
        exact ⟨⟨trivial, rfl, rfl⟩, rfl⟩
      · rw [if_neg hv] at hp
        cases hp
    · rintro ⟨hwalks, hlength⟩
      have hedges := List.length_eq_zero_iff.mp hlength
      have hnodes := hwalks.walk.length
      rw [hlength] at hnodes
      obtain ⟨u, hu⟩ := List.length_eq_one_iff.mp hnodes
      have hhead := hwalks.head
      have hlast := hwalks.last
      rw [hu] at hhead hlast
      obtain rfl : u = start := Option.some.inj hhead
      obtain rfl : u = v := Option.some.inj hlast
      rw [if_pos rfl, List.mem_singleton]
      exact Prod.ext hu hedges
  | succ k ih =>
    simp only [walksOf, List.mem_flatMap, List.mem_map]
    constructor
    · rintro ⟨e, he, p', hp', rfl⟩
      obtain ⟨hwalks, hlength⟩ := ih.mp hp'
      obtain ⟨heout, htarget⟩ := (hinto v e).mp he
      refine ⟨⟨(isWalk_concat hwalks.last).mpr ⟨hwalks.walk, heout, rfl, htarget⟩, ?_, List.getLast?_concat⟩, ?_⟩
      · rw [List.head?_append_of_ne_nil _ hwalks.walk.ne_nil, hwalks.head]
      · rw [List.length_append, hlength, List.length_singleton]
    · rintro ⟨hwalks, hlength⟩
      obtain ⟨nodes, edges, u, e, hnodes, hedges, hlast, hwalk, hlink, hlength'⟩ :=
        hwalks.walk.exists_concat hwalks.last hlength
      have hhead := hwalks.head
      rw [hnodes, List.head?_append_of_ne_nil _ hwalk.ne_nil] at hhead
      obtain ⟨heout, hsource, htarget⟩ := hlink
      subst hsource
      exact ⟨e, (hinto v e).mpr ⟨heout, htarget⟩, (nodes, edges), ih.mpr ⟨⟨hwalk, hhead, hlast⟩, hlength'⟩,
        Prod.ext hnodes.symm hedges.symm⟩

theorem nodup_walksOf (hnodup : ∀ v, (into v).Nodup) (k : ℕ) (v : V) : (walksOf source into start k v).Nodup := by
  induction k generalizing v with
  | zero =>
    rw [walksOf]
    split
    · exact List.nodup_singleton _
    · exact List.nodup_nil
  | succ k ih =>
    rw [walksOf]
    refine List.nodup_flatMap.mpr ⟨fun e _ => (ih (source e)).map fun p q hpq => ?_, ?_⟩
    · obtain ⟨hnodes, hedges⟩ := Prod.mk.inj hpq
      exact Prod.ext (List.append_cancel_right hnodes) (List.append_cancel_right hedges)
    · refine (hnodup v).imp fun {e e'} hne => ?_
      intro p hp hp'
      obtain ⟨q, -, rfl⟩ := List.mem_map.mp hp
      obtain ⟨q', -, hq'⟩ := List.mem_map.mp hp'
      have hlast : q'.2 ++ [e'] = q.2 ++ [e] := (Prod.mk.inj hq').2
      exact hne (List.singleton_inj.mp (List.append_inj_right' hlast rfl)).symm

/-- A shortest walk to a node is one to a predecessor with one more edge: it is enough to go back along the edges from
the distance before. -/
theorem perm_walksOf (hinto : ∀ v e, e ∈ into v ↔ e ∈ out (source e) ∧ target e = v)
    (hnodup : ∀ v, (into v).Nodup) {j : ℕ} {v : V} (hv : IsDist (Search.Link source target out) start (j + 1) v)
    {l : List E} (hl : l.Nodup)
    (hmem : ∀ e, e ∈ l ↔ e ∈ into v ∧ IsDist (Search.Link source target out) start j (source e)) :
    (l.flatMap fun e => (walksOf source into start j (source e)).map fun p => (p.1 ++ [v], p.2 ++ [e])).Perm
      (walksOf source into start (j + 1) v) := by
  classical
  let near := fun e => decide (IsDist (Search.Link source target out) start j (source e))
  have hperm : l.Perm ((into v).filter near) := by
    refine (List.perm_ext_iff_of_nodup hl ((hnodup v).filter _)).mpr fun e => ?_
    rw [hmem, List.mem_filter, decide_eq_true_iff]
  refine (hperm.flatMap_right _).trans (List.Perm.of_eq ?_)
  -- no walk of `j` edges leads to the source of any other edge
  have hfar : ∀ e ∈ into v, near e = false → walksOf source into start j (source e) = [] := by
    intro e he hfar
    refine List.eq_nil_iff_forall_not_mem.mpr fun p hp => of_decide_eq_false hfar ?_
    obtain ⟨hwalks, hlength⟩ := (mem_walksOf hinto).mp hp
    obtain ⟨heout, htarget⟩ := (hinto v e).mp he
    exact hv.before (hlength ▸ hwalks.reaches) ⟨heout, rfl, htarget⟩
  rw [walksOf]
  generalize into v = edges at hfar
  induction edges with
  | nil => rfl
  | cons e edges ih =>
    have hrest := ih fun e' he' => hfar e' (List.mem_cons_of_mem _ he')
    cases hnear : near e with
    | true => rw [List.filter_cons_of_pos hnear, List.flatMap_cons, List.flatMap_cons, hrest]
    | false =>
      rw [List.filter_cons_of_neg (by simp [hnear]), List.flatMap_cons, hrest,
        hfar e List.mem_cons_self hnear, List.map_nil, List.nil_append]

/-- The edges that a search has met on the way to a node whose predecessors have all left the queue. -/
theorem Search.Inv.mem_tight_filter (hinto : ∀ v e, e ∈ into v ↔ e ∈ out (source e) ∧ target e = v) {k : ℕ}
    {layer next : List V} {todo : List E} {s : Search V E}
    (h : Search.Inv source target out start k layer next todo s) {j : ℕ} {v : V}
    (hv : IsDist (Search.Link source target out) start (j + 1) v) (hdone : j < k ∨ j = k ∧ layer = [] ∧ todo = []) (e : E) :
    e ∈ s.tight.filter (target · = v) ↔
      e ∈ into v ∧ IsDist (Search.Link source target out) start j (source e) := by
  rw [List.mem_filter, decide_eq_true_iff, h.tight, hinto]
  constructor
  · rintro ⟨⟨i, ⟨heout, hsource, htarget⟩, -⟩, rfl⟩
    obtain rfl : i = j := Nat.succ_injective (htarget.unique hv)
    exact ⟨⟨heout, rfl⟩, hsource⟩
  · rintro ⟨⟨heout, rfl⟩, hsource⟩
    rcases hdone with hlt | ⟨heq, rfl, rfl⟩
    · -- the edges that are left leave the current layer
      refine ⟨⟨j, ⟨heout, hsource, hv⟩, .inl hlt, fun hmem => ?_⟩, rfl⟩
      have := hsource.unique (h.todo_dist e hmem).2
      omega
    · exact ⟨⟨j, ⟨heout, hsource, hv⟩, .inr ⟨heq, List.not_mem_nil⟩, List.not_mem_nil⟩, rfl⟩

end Walks
