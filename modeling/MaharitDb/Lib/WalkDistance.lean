import MaharitDb.Lib.Walks

/-!
# Distances

How many edges the shortest walks from a node have.  The nodes at one distance are those that an edge leads to from
the distance before and that are not nearer; a shortest walk passes no node and no edge twice.
-/

namespace Walks

variable {V E : Type*} (link : V → E → V → Prop) (start : V)

/-- A walk of so many edges leads to the node. -/
def Reaches : ℕ → V → Prop
  | 0, v => v = start
  | k + 1, v => ∃ u e, Reaches k u ∧ link u e v

/-- No shorter walk leads to the node. -/
def IsDist (k : ℕ) (v : V) : Prop := Reaches link start k v ∧ ∀ j < k, ¬ Reaches link start j v

variable {link start}

lemma IsDist.unique {k k' : ℕ} {v : V} (h : IsDist link start k v) (h' : IsDist link start k' v) : k = k' := by
  rcases Nat.lt_trichotomy k k' with hlt | heq | hgt
  · exact absurd h.1 (h'.2 k hlt)
  · exact heq
  · exact absurd h'.1 (h.2 k' hgt)

lemma isDist_zero {v : V} : IsDist link start 0 v ↔ v = start :=
  ⟨fun h => h.1, fun h => ⟨h, fun _ hj => absurd hj (Nat.not_lt_zero _)⟩⟩

lemma Reaches.exists_isDist {k : ℕ} {v : V} (h : Reaches link start k v) : ∃ j ≤ k, IsDist link start j v := by
  classical
  have hex : ∃ j, Reaches link start j v := ⟨k, h⟩
  exact ⟨Nat.find hex, Nat.find_min' hex h, Nat.find_spec hex, fun j hj => Nat.find_min hex hj⟩

/-- On the way to a node at a distance the node before is one nearer. -/
lemma IsDist.before {k : ℕ} {u v : V} {e : E} (h : IsDist link start (k + 1) v) (hu : Reaches link start k u)
    (hlink : link u e v) : IsDist link start k u :=
  ⟨hu, fun j hj hreach => h.2 (j + 1) (Nat.succ_lt_succ hj) ⟨u, e, hreach, hlink⟩⟩

/-- The nodes of the next distance. -/
lemma isDist_succ {k : ℕ} {v : V} :
    IsDist link start (k + 1) v ↔
      (∀ j ≤ k, ¬ IsDist link start j v) ∧ ∃ u e, IsDist link start k u ∧ link u e v := by
  constructor
  · intro h
    obtain ⟨u, e, hreach, hlink⟩ := h.1
    exact ⟨fun j hj hdist => h.2 j (Nat.lt_succ_of_le hj) hdist.1, u, e, h.before hreach hlink, hlink⟩
  · rintro ⟨hfar, u, e, hdist, hlink⟩
    refine ⟨⟨u, e, hdist.1, hlink⟩, fun j hj hreach => ?_⟩
    obtain ⟨i, hi, hdist'⟩ := hreach.exists_isDist
    exact hfar i (by omega) hdist'

/-- Every smaller distance is some node's. -/
lemma IsDist.exists_le {k j : ℕ} {v : V} (h : IsDist link start k v) (hj : j ≤ k) : ∃ u, IsDist link start j u := by
  induction k generalizing v with
  | zero => exact ⟨v, (Nat.le_zero.mp hj) ▸ h⟩
  | succ k ih =>
    rcases hj.lt_or_eq with hlt | rfl
    · obtain ⟨-, u, -, hu, -⟩ := isDist_succ.mp h
      exact ih hu (Nat.le_of_lt_succ hlt)
    · exact ⟨v, h⟩

/-! ## Walks to a node -/

lemma WalksTo.reaches {v : V} {nodes : List V} {edges : List E} (h : WalksTo link start v nodes edges) :
    Reaches link start edges.length v := by
  generalize hk : edges.length = k
  induction k generalizing v nodes edges with
  | zero =>
    have hnodes := h.walk.length
    rw [hk] at hnodes
    obtain ⟨u, rfl⟩ := List.length_eq_one_iff.mp hnodes
    have hhead : u = start := Option.some.inj h.head
    have hlast : u = v := Option.some.inj h.last
    exact hlast.symm.trans hhead
  | succ k ih =>
    obtain ⟨nodes', edges', u, e, rfl, rfl, hlast, hwalk, hlink, hlength⟩ := h.walk.exists_concat h.last hk
    have hhead := h.head
    rw [List.head?_append_of_ne_nil _ hwalk.ne_nil] at hhead
    exact ⟨u, e, ih ⟨hwalk, hhead, hlast⟩ hlength, hlink⟩

lemma Reaches.exists_walksTo {k : ℕ} {v : V} (h : Reaches link start k v) :
    ∃ nodes edges, WalksTo link start v nodes edges ∧ edges.length = k := by
  induction k generalizing v with
  | zero =>
    obtain rfl := h
    exact ⟨[v], [], ⟨trivial, rfl, rfl⟩, rfl⟩
  | succ k ih =>
    obtain ⟨u, e, hu, hlink⟩ := h
    obtain ⟨nodes, edges, hwalks, rfl⟩ := ih hu
    refine ⟨nodes ++ [v], edges ++ [e], ⟨(isWalk_concat hwalks.last).mpr ⟨hwalks.walk, hlink⟩, ?_, ?_⟩, ?_⟩
    · rw [List.head?_append_of_ne_nil _ hwalks.walk.ne_nil, hwalks.head]
    · exact List.getLast?_concat
    · simp

/-- A shortest walk with an edge is a shortest walk to the node before. -/
lemma WalksTo.exists_concat {k : ℕ} {v : V} {nodes : List V} {edges : List E}
    (h : WalksTo link start v nodes edges) (hlength : edges.length = k + 1) (hdist : IsDist link start (k + 1) v) :
    ∃ nodes' edges' u e, nodes = nodes' ++ [v] ∧ edges = edges' ++ [e] ∧ WalksTo link start u nodes' edges' ∧
      edges'.length = k ∧ IsDist link start k u ∧ link u e v := by
  obtain ⟨nodes', edges', u, e, rfl, rfl, hlast, hwalk, hlink, hlength'⟩ := h.walk.exists_concat h.last hlength
  have hhead := h.head
  rw [List.head?_append_of_ne_nil _ hwalk.ne_nil] at hhead
  have hwalks : WalksTo link start u nodes' edges' := ⟨hwalk, hhead, hlast⟩
  have hreach := hwalks.reaches
  rw [hlength'] at hreach
  exact ⟨nodes', edges', u, e, rfl, rfl, hwalks, hlength', hdist.before hreach hlink, hlink⟩

/-- The nodes of a shortest walk lie at different distances; after the start they are not the start. -/
lemma WalksTo.nodup {v : V} {nodes : List V} {edges : List E} (h : WalksTo link start v nodes edges)
    (hdist : IsDist link start edges.length v) :
    nodes.Nodup ∧ ∀ u ∈ nodes, ∃ i ≤ edges.length, IsDist link start i u := by
  generalize hk : edges.length = k at hdist ⊢
  induction k generalizing v nodes edges with
  | zero =>
    have hnodes := h.walk.length
    rw [hk] at hnodes
    obtain ⟨u, rfl⟩ := List.length_eq_one_iff.mp hnodes
    have hlast : u = v := Option.some.inj h.last
    refine ⟨List.nodup_singleton u, fun w hw => ⟨0, le_rfl, ?_⟩⟩
    rw [List.mem_singleton.mp hw, hlast]
    exact hdist
  | succ k ih =>
    obtain ⟨nodes', edges', u, e, rfl, rfl, hwalks, hlength, hu, -⟩ := h.exists_concat hk hdist
    obtain ⟨hnodup, hnear⟩ := ih hwalks hlength hu
    refine ⟨List.nodup_append_comm.mp (List.nodup_cons.mpr ⟨fun hmem => ?_, hnodup⟩), fun w hw => ?_⟩
    · obtain ⟨i, hi, hdist'⟩ := hnear v hmem
      have := hdist.unique hdist'
      omega
    · rcases List.mem_append.mp hw with hw | hw
      · obtain ⟨i, hi, hdist'⟩ := hnear w hw
        exact ⟨i, Nat.le_succ_of_le hi, hdist'⟩
      · rw [List.mem_singleton.mp hw]
        exact ⟨k + 1, le_rfl, hdist⟩

/-! ## Edges -/

lemma IsWalk.exists_link {nodes : List V} {edges : List E} (h : IsWalk link nodes edges) {e : E} (he : e ∈ edges) :
    ∃ u ∈ nodes, ∃ v ∈ nodes, link u e v := by
  induction nodes generalizing edges with
  | nil => cases edges <;> exact h.elim
  | cons u nodes ih =>
    cases nodes with
    | nil =>
      cases edges with
      | nil => cases he
      | cons d edges => exact h.elim
    | cons v nodes =>
      cases edges with
      | nil => exact h.elim
      | cons d edges =>
        rcases List.mem_cons.mp he with rfl | he
        · exact ⟨u, by simp, v, by simp, h.1⟩
        · obtain ⟨u', hu', v', hv', hlink⟩ := ih h.2 he
          exact ⟨u', List.mem_cons_of_mem _ hu', v', List.mem_cons_of_mem _ hv', hlink⟩

/-- A walk that passes no node twice passes no edge twice, when an edge joins two nodes only. -/
lemma IsWalk.nodup_edges (hjoin : ∀ u e v u' v', link u e v → link u' e v' → u = u' ∧ v = v' ∨ u = v' ∧ v = u')
    {nodes : List V} {edges : List E} (h : IsWalk link nodes edges) (hnodup : nodes.Nodup) : edges.Nodup := by
  induction nodes generalizing edges with
  | nil => cases edges <;> exact h.elim
  | cons u nodes ih =>
    cases nodes with
    | nil =>
      cases edges with
      | nil => exact List.nodup_nil
      | cons d edges => exact h.elim
    | cons v nodes =>
      cases edges with
      | nil => exact h.elim
      | cons e edges =>
        obtain ⟨hfresh, hnodup⟩ := List.nodup_cons.mp hnodup
        refine List.nodup_cons.mpr ⟨fun hmem => hfresh ?_, ih h.2 hnodup⟩
        obtain ⟨u', hu', v', hv', hlink⟩ := h.2.exists_link hmem
        rcases hjoin _ _ _ _ _ h.1 hlink with ⟨rfl, -⟩ | ⟨rfl, -⟩
        · exact hu'
        · exact hv'

end Walks
