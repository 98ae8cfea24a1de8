import Mathlib.Algebra.BigOperators.Ring.List
import Mathlib.Data.Rat.Defs
import Mathlib.Tactic.FieldSimp
import MaharitDb.Lib.WalkCount

/-!
# Dependencies

The dependency of a node on another one: the sum, over all ends, of the share of the shortest walks from the first node
that lead over the second.  It follows from the dependencies of the nodes that lie one step farther away, which is how
Brandes' algorithm adds it up.
-/

namespace Walks

variable {V E : Type} [DecidableEq V]

/-- The share of the shortest walks that lead over a node. -/
noncomputable def share (link : V → E → V → Prop) (s t v : V) : ℚ :=
  (shortestOver link s t v : ℚ) / shortest link s t

/-- The shares over all ends other than the node itself. -/
noncomputable def dependency (link : V → E → V → Prop) (nodes : List V) (s v : V) : ℚ :=
  (nodes.map fun t => if t = v then 0 else share link s t v).sum

omit [DecidableEq V] in
/-- Where no walk leads there are no shares. -/
lemma share_eq_zero {link : V → E → V → Prop} {s t : V} (hnone : ∀ d, ¬ IsDist link s d t) (v : V) :
    share link s t v = 0 := by
  have hover : shortestOver link s t v = 0 := by
    refine shortestOver_eq_zero fun p hp _ => ?_
    exact hnone _ (isShortest_iff.mp hp).2
  rw [share, hover, Nat.cast_zero, zero_div]

omit [DecidableEq V] in
/-- Over a node to which no walk leads there are no shortest walks. -/
lemma share_eq_zero' {link : V → E → V → Prop} {s v : V} (hnone : ∀ i, ¬ IsDist link s i v) (t : V) :
    share link s t v = 0 := by
  have hover : shortestOver link s t v = 0 := by
    refine shortestOver_eq_zero fun p hp hmem => ?_
    obtain ⟨i, -, -, hi, -⟩ := hp.split hmem
    exact hnone i hi
  rw [share, hover, Nat.cast_zero, zero_div]

variable {source target : E → V} {out into : V → List E} {s : V}

/-- All shortest walks lead over their end. -/
lemma Edges.share_self (h : Edges source target out into) {t : V} {d : ℕ}
    (ht : IsDist (Search.Link source target out) s d t) : share (Search.Link source target out) s t t = 1 := by
  rw [share, h.shortestOver_eq ht ht le_rfl, Nat.sub_self, count_zero, if_pos rfl, mul_one, ← h.shortest_eq ht]
  exact div_self (Nat.cast_ne_zero.mpr (h.shortest_pos ht).ne')

/-- The edges that lead one step farther carry all walks on to an end that is farther away. -/
lemma Edges.count_farther (h : Edges source target out into) {t v : V} {i d : ℕ}
    (hv : IsDist (Search.Link source target out) s i v) (ht : IsDist (Search.Link source target out) s d t)
    (hlt : i < d) {l : List E} (hl : l.Nodup)
    (hmem : ∀ e, e ∈ l ↔ e ∈ out v ∧ IsDist (Search.Link source target out) s (i + 1) (target e)) :
    count source into v (d - i) t = (l.map fun e => count source into (target e) (d - (i + 1)) t).sum := by
  classical
  let near := fun e => decide (IsDist (Search.Link source target out) s (i + 1) (target e))
  have hperm : l.Perm ((out v).filter near) := by
    refine (List.perm_ext_iff_of_nodup hl ((h.nodup_out v).filter _)).mpr fun e => ?_
    rw [hmem, List.mem_filter, decide_eq_true_iff]
  obtain ⟨m, rfl⟩ : ∃ m, d = i + m + 1 := ⟨d - i - 1, by omega⟩
  rw [show i + m + 1 - i = m + 1 by omega, show i + m + 1 - (i + 1) = m by omega, h.count_succ',
    (hperm.map _).sum_eq, List.sum_map_filter]
  refine congrArg List.sum (List.map_congr_left fun e he => ?_)
  by_cases hnear : near e = true
  · rw [if_pos hnear]
  · rw [if_neg hnear]
    -- a walk on from a nearer node would be too short
    by_contra hne
    have hrest := h.count_pos_iff.mp (Nat.pos_of_ne_zero hne)
    have hstep : Reaches (Search.Link source target out) s (i + 1) (target e) :=
      ⟨v, e, hv.1, he, h.source_eq v e he, rfl⟩
    obtain ⟨j, hj, hdist⟩ := hstep.exists_isDist
    rcases hj.lt_or_eq with hless | rfl
    · exact ht.2 _ (by omega) (hdist.1.trans hrest)
    · exact hnear (decide_eq_true hdist)

/-- The share over a node goes on over the nodes one step farther away. -/
theorem Edges.share_eq (h : Edges source target out into) {t v : V} {i : ℕ}
    (hv : IsDist (Search.Link source target out) s i v) (hne : t ≠ v) {l : List E} (hl : l.Nodup)
    (hmem : ∀ e, e ∈ l ↔ e ∈ out v ∧ IsDist (Search.Link source target out) s (i + 1) (target e)) :
    share (Search.Link source target out) s t v =
      (l.map fun e => (shortest (Search.Link source target out) s v : ℚ) /
        shortest (Search.Link source target out) s (target e) *
          share (Search.Link source target out) s t (target e)).sum := by
  by_cases hreach : ∃ d, IsDist (Search.Link source target out) s d t
  · obtain ⟨d, ht⟩ := hreach
    rcases Nat.lt_or_ge i d with hlt | hge
    · have hterm : ∀ e ∈ l, (shortest (Search.Link source target out) s v : ℚ) /
          shortest (Search.Link source target out) s (target e) * share (Search.Link source target out) s t (target e) =
          (count source into s i v : ℚ) / shortest (Search.Link source target out) s t *
            (count source into (target e) (d - (i + 1)) t : ℕ) := by
        intro e he
        have hfar := ((hmem e).mp he).2
        have hpos := h.shortest_pos hfar
        have hne' : (shortest (Search.Link source target out) s (target e) : ℚ) ≠ 0 := Nat.cast_ne_zero.mpr hpos.ne'
        rw [share, h.shortestOver_eq hfar ht hlt, ← h.shortest_eq hfar, h.shortest_eq hv, Nat.cast_mul]
        field_simp
      rw [List.map_congr_left hterm, List.sum_map_mul_left, share, h.shortestOver_eq hv ht hlt.le,
        h.count_farther hv ht hlt hl hmem, Nat.cast_mul, Nat.cast_list_sum, List.map_map, mul_div_right_comm]
      rfl
    · have hzero : shortestOver (Search.Link source target out) s t v = 0 := by
        rcases hge.lt_or_eq with hlt | rfl
        · exact shortestOver_eq_zero_of_lt hv ht hlt
        · rw [h.shortestOver_eq hv ht le_rfl, Nat.sub_self, count_zero, if_neg hne, mul_zero]
      rw [share, hzero, Nat.cast_zero, zero_div]
      refine (List.sum_eq_zero fun x hx => ?_).symm
      obtain ⟨e, he, rfl⟩ := List.mem_map.mp hx
      rw [share, shortestOver_eq_zero_of_lt ((hmem e).mp he).2 ht (by omega), Nat.cast_zero, zero_div, mul_zero]
  · have hnone : ∀ d, ¬ IsDist (Search.Link source target out) s d t := fun d hd => hreach ⟨d, hd⟩
    rw [share_eq_zero hnone]
    refine (List.sum_eq_zero fun x hx => ?_).symm
    obtain ⟨e, -, rfl⟩ := List.mem_map.mp hx
    rw [share_eq_zero hnone, mul_zero]

/-- The dependency of a node follows from those of the nodes one step farther away. -/
theorem Edges.dependency_eq (h : Edges source target out into) {nodes : List V} (hnodup : nodes.Nodup)
    (hlive : ∀ u, ∀ e ∈ out u, target e ∈ nodes) {v : V} {i : ℕ}
    (hv : IsDist (Search.Link source target out) s i v) {l : List E} (hl : l.Nodup)
    (hmem : ∀ e, e ∈ l ↔ e ∈ out v ∧ IsDist (Search.Link source target out) s (i + 1) (target e)) :
    dependency (Search.Link source target out) nodes s v =
      (l.map fun e => (shortest (Search.Link source target out) s v : ℚ) /
        shortest (Search.Link source target out) s (target e) *
          (1 + dependency (Search.Link source target out) nodes s (target e))).sum := by
  -- the shares over a node one step farther away, without the end that is the nearer node
  have hfar : ∀ e ∈ l, (nodes.map fun t => if t = v then 0
      else share (Search.Link source target out) s t (target e)).sum =
        1 + dependency (Search.Link source target out) nodes s (target e) := by
    intro e he
    obtain ⟨heout, hdist⟩ := (hmem e).mp he
    have hterm : ∀ t ∈ nodes, (if t = v then 0 else share (Search.Link source target out) s t (target e)) =
        (if target e = t then 1 else 0) +
          if t = target e then 0 else share (Search.Link source target out) s t (target e) := by
      intro t _
      by_cases ht : t = v
      · have hne : v ≠ target e := by
          intro heq
          rw [← heq] at hdist
          have := hdist.unique hv
          omega
        have hzero : share (Search.Link source target out) s v (target e) = 0 := by
          rw [share, shortestOver_eq_zero_of_lt hdist hv (Nat.lt_succ_self i), Nat.cast_zero, zero_div]
        rw [ht, if_pos rfl, if_neg (Ne.symm hne), if_neg hne, hzero, add_zero]
      · by_cases htarget : t = target e
        · rw [if_neg ht, htarget, if_pos rfl, if_pos rfl, h.share_self hdist, add_zero]
        · rw [if_neg ht, if_neg (Ne.symm htarget), if_neg htarget, zero_add]
    rw [List.map_congr_left hterm, List.sum_map_add,
      List.sum_map_ite_eq_of_nodup hnodup (hlive v e heout), dependency]
  have hterms : ∀ t ∈ nodes, (if t = v then 0 else share (Search.Link source target out) s t v) =
      (l.map fun e => (shortest (Search.Link source target out) s v : ℚ) /
        shortest (Search.Link source target out) s (target e) *
          if t = v then 0 else share (Search.Link source target out) s t (target e)).sum := by
    intro t _
    by_cases ht : t = v
    · simp [ht]
    · simp only [if_neg ht]
      exact h.share_eq hv ht hl hmem
  rw [dependency, List.map_congr_left hterms, List.sum_map_comm]
  refine congrArg List.sum (List.map_congr_left fun e he => ?_)
  rw [List.sum_map_mul_left, hfar e he]

end Walks
