import MaharitDb.Lib.Loop
import MaharitDb.Lib.WalkDistance

/-!
# Breadth-first search

The bare search that the breadth-first algorithms have in common: a queue, the distances of the nodes that have been
met, the nodes in the order in which they leave the queue, and the edges that lead one step further from the start, in
the order in which they are met.  The queue holds what is left of one layer and then what has been met of the next; the
search meets every node at its distance.
-/

namespace Walks

variable {V E : Type}

/-- The search between two turns. -/
structure Search (V E : Type) where
  queue : List V
  dist : HashMap V ℕ
  /-- The nodes that have left the queue. -/
  order : List V
  /-- The edges over which a node was met at its distance. -/
  tight : List E

namespace Search

variable [DecidableEq V] (source target : E → V) (out : V → List E)

/-- One edge of a node, where `d` is one more than the distance of the node. -/
def along (d : ℕ) (s : Search V E) (e : E) : Search V E :=
  match s.dist.lookup (target e) with
  | none =>
      { s with
        queue := s.queue ++ [target e]
        dist := s.dist.insert (target e) d
        tight := s.tight ++ [e] }
  | some d' => if d' = d then { s with tight := s.tight ++ [e] } else s

/-- The turn of a node that leaves the queue. -/
def turn (u : V) (d : ℕ) (s : Search V E) : Search V E :=
  (out u).foldl (along target (d + 1)) { s with queue := s.queue.tail, order := s.order ++ [u] }

/-- The search before its first turn. -/
def init (start : V) : Search V E := ⟨[start], AList.insert start 0 ∅, [], []⟩

/-- An edge of the graph that is given by the edges that leave each node. -/
def Link (u : V) (e : E) (v : V) : Prop := e ∈ out u ∧ source e = u ∧ target e = v

/-- The edge leads one step further from the start. -/
def Tight (start : V) (e : E) (j : ℕ) : Prop :=
  e ∈ out (source e) ∧ IsDist (Link source target out) start j (source e) ∧
    IsDist (Link source target out) start (j + 1) (target e)

/-- The search stands in layer `k`: the nodes of `layer` are to come, those of `next` have been met for the next layer,
and the edges of `todo` are the ones left of the current node. -/
structure Inv (start : V) (k : ℕ) (layer next : List V) (todo : List E) (s : Search V E) : Prop where
  queue : s.queue = layer ++ next
  dist : ∀ v j, s.dist.lookup v = some j ↔
    IsDist (Link source target out) start j v ∧ (j ≤ k ∨ v ∈ next)
  layer_dist : ∀ v ∈ layer, IsDist (Link source target out) start k v
  layer_nodup : layer.Nodup
  next_dist : ∀ v ∈ next, IsDist (Link source target out) start (k + 1) v
  next_nodup : next.Nodup
  todo_dist : ∀ e ∈ todo, e ∈ out (source e) ∧ IsDist (Link source target out) start k (source e)
  todo_nodup : todo.Nodup
  /-- The nodes of this layer that have left the queue have met their neighbours. -/
  met : ∀ u, IsDist (Link source target out) start k u → u ∉ layer → ∀ e ∈ out u, e ∈ todo ∨ target e ∈ s.dist
  order : ∀ v, v ∈ s.order ↔ ∃ j, IsDist (Link source target out) start j v ∧ (j < k ∨ j = k ∧ v ∉ layer)
  order_nodup : s.order.Nodup
  order_sorted : s.order.Pairwise fun u v => ∀ i j, IsDist (Link source target out) start i u →
    IsDist (Link source target out) start j v → i ≤ j
  tight : ∀ e, e ∈ s.tight ↔
    ∃ j, Tight source target out start e j ∧ (j < k ∨ j = k ∧ source e ∉ layer) ∧ e ∉ todo
  tight_nodup : s.tight.Nodup
  found : ∀ v ∈ s.dist, v = start ∨ ∃ e ∈ s.tight, target e = v

variable {source target out} {start : V} {k : ℕ} {layer next : List V} {todo : List E} {s : Search V E}

lemma inv_init : Inv source target out start 0 [start] [] [] (init start) where
  queue := rfl
  dist v j := by
    rw [init, HashMap.lookup_insert_ite]
    constructor
    · intro h
      by_cases hv : v = start
      · rw [if_pos hv] at h
        obtain rfl := Option.some.inj h
        exact ⟨isDist_zero.mpr hv, .inl le_rfl⟩
      · rw [if_neg hv] at h
        simp at h
    · rintro ⟨hdist, hj | hv⟩
      · obtain rfl := Nat.le_zero.mp hj
        rw [if_pos (isDist_zero.mp hdist)]
      · cases hv
  layer_dist v hv := isDist_zero.mpr (List.mem_singleton.mp hv)
  layer_nodup := List.nodup_singleton start
  next_dist v hv := absurd hv List.not_mem_nil
  next_nodup := List.nodup_nil
  todo_dist e he := absurd he List.not_mem_nil
  todo_nodup := List.nodup_nil
  met u hu hnot := absurd (List.mem_singleton.mpr (isDist_zero.mp hu)) hnot
  order v := by
    refine ⟨fun hv => absurd hv List.not_mem_nil, ?_⟩
    rintro ⟨j, hdist, hj | ⟨rfl, hnot⟩⟩
    · exact absurd hj (Nat.not_lt_zero j)
    · exact absurd (List.mem_singleton.mpr (isDist_zero.mp hdist)) hnot
  order_nodup := List.nodup_nil
  order_sorted := List.Pairwise.nil
  tight e := by
    refine ⟨fun he => absurd he List.not_mem_nil, ?_⟩
    rintro ⟨j, ⟨-, hdist, -⟩, hj | ⟨rfl, hnot⟩, -⟩
    · exact absurd hj (Nat.not_lt_zero j)
    · exact absurd (List.mem_singleton.mpr (isDist_zero.mp hdist)) hnot
  tight_nodup := List.nodup_nil
  found v hv := .inl (((AList.mem_insert _).mp hv).resolve_right (AList.notMem_empty v))

/-- A node has been met at its distance. -/
lemma Inv.mem_dist (h : Inv source target out start k layer next todo s) {v : V} :
    v ∈ s.dist ↔ ∃ j, IsDist (Link source target out) start j v ∧ (j ≤ k ∨ v ∈ next) := by
  rw [HashMap.mem_iff_exists]
  exact exists_congr fun j => h.dist v j

/-- The edges that the search has met lead to nodes that it has met. -/
lemma Inv.target_mem (h : Inv source target out start k layer next todo s) {e : E} (he : e ∈ s.tight) :
    target e ∈ s.dist := by
  obtain ⟨j, ⟨heout, hsource, htarget⟩, hj | ⟨rfl, hlayer⟩, hnot⟩ := (h.tight e).mp he
  · exact h.mem_dist.mpr ⟨j + 1, htarget, .inl hj⟩
  · exact (h.met _ hsource hlayer e heout).resolve_left hnot

/-- The first node of the layer leaves the queue. -/
lemma Inv.pop {u : V} (h : Inv source target out start k (u :: layer) next [] s) (hout : (out u).Nodup)
    (hsource : ∀ e ∈ out u, source e = u) :
    Inv source target out start k layer next (out u)
      { s with queue := s.queue.tail, order := s.order ++ [u] } := by
  have hu := h.layer_dist u List.mem_cons_self
  obtain ⟨hfresh, hnodup⟩ := List.nodup_cons.mp h.layer_nodup
  have hold : u ∉ s.order := by
    intro hmem
    obtain ⟨j, hdist, hj | ⟨-, hnot⟩⟩ := (h.order u).mp hmem
    · have := hdist.unique hu
      omega
    · exact hnot List.mem_cons_self
  refine ⟨by simp [h.queue], h.dist, fun v hv => h.layer_dist v (List.mem_cons_of_mem _ hv), hnodup, h.next_dist,
    h.next_nodup, fun e he => ?_, hout, fun x hx hnot e he => ?_, fun v => ?_, ?_, ?_, fun e => ?_, h.tight_nodup,
    h.found⟩
  · rw [hsource e he]
    exact ⟨he, hu⟩
  · by_cases hxu : x = u
    · exact .inl (hxu ▸ he)
    · have hnot' : x ∉ u :: layer := fun hmem => (List.mem_cons.mp hmem).elim hxu hnot
      exact .inr ((h.met x hx hnot' e he).resolve_left List.not_mem_nil)
  · rw [List.mem_append, List.mem_singleton, h.order]
    constructor
    · rintro (⟨j, hdist, hj | ⟨hj, hnot⟩⟩ | rfl)
      · exact ⟨j, hdist, .inl hj⟩
      · exact ⟨j, hdist, .inr ⟨hj, fun hmem => hnot (List.mem_cons_of_mem _ hmem)⟩⟩
      · exact ⟨k, hu, .inr ⟨rfl, hfresh⟩⟩
    · rintro ⟨j, hdist, hj | ⟨hj, hnot⟩⟩
      · exact .inl ⟨j, hdist, .inl hj⟩
      · by_cases hvu : v = u
        · exact .inr hvu
        · exact .inl ⟨j, hdist, .inr ⟨hj, fun hmem => (List.mem_cons.mp hmem).elim hvu hnot⟩⟩
  · refine List.nodup_append.mpr ⟨h.order_nodup, List.nodup_singleton u, fun a ha b hb hab => ?_⟩
    rw [List.mem_singleton.mp hb] at hab
    exact hold (hab ▸ ha)
  · refine List.pairwise_append.mpr ⟨h.order_sorted, List.pairwise_singleton _ _, fun a ha b hb i j hi hj => ?_⟩
    rw [List.mem_singleton.mp hb] at hj
    obtain ⟨i', hdist, hi'⟩ := (h.order a).mp ha
    have hik := hi.unique hdist
    have hjk := hj.unique hu
    omega
  · rw [h.tight]
    constructor
    · rintro ⟨j, htight, hj | ⟨hj, hnot⟩, -⟩
      · refine ⟨j, htight, .inl hj, fun he => ?_⟩
        rw [Tight, hsource e he] at htight
        have := htight.2.1.unique hu
        omega
      · refine ⟨j, htight, .inr ⟨hj, fun hmem => hnot (List.mem_cons_of_mem _ hmem)⟩, fun he => ?_⟩
        rw [hsource e he] at hnot
        exact hnot List.mem_cons_self
    · rintro ⟨j, htight, hj | ⟨hj, hnot⟩, htodo⟩
      · exact ⟨j, htight, .inl hj, List.not_mem_nil⟩
      · refine ⟨j, htight, .inr ⟨hj, fun hmem => ?_⟩, List.not_mem_nil⟩
        rcases List.mem_cons.mp hmem with heq | hmem
        · exact htodo (heq ▸ htight.1)
        · exact hnot hmem

/-- One edge of the current node. -/
lemma Inv.along {e : E} (h : Inv source target out start k layer next (e :: todo) s)
    (hlayer : source e ∉ layer) :
    ∃ next', Inv source target out start k layer next' todo (along target (k + 1) s e) := by
  obtain ⟨heout, hsource⟩ := h.todo_dist e List.mem_cons_self
  obtain ⟨hefresh, htodo⟩ := List.nodup_cons.mp h.todo_nodup
  have hreach : Reaches (Link source target out) start (k + 1) (target e) :=
    ⟨source e, e, hsource.1, heout, rfl, rfl⟩
  have hemem : e ∉ s.tight := by
    intro he
    obtain ⟨-, -, -, hnot⟩ := (h.tight e).mp he
    exact hnot List.mem_cons_self
  -- what the log gains when the edge leads one step further
  have htight : Tight source target out start e k → ∀ e', e' ∈ s.tight ++ [e] ↔
      ∃ j, Tight source target out start e' j ∧ (j < k ∨ j = k ∧ source e' ∉ layer) ∧ e' ∉ todo := by
    intro he e'
    rw [List.mem_append, List.mem_singleton, h.tight]
    constructor
    · rintro (⟨j, hj, hjk, hnot⟩ | rfl)
      · exact ⟨j, hj, hjk, fun hmem => hnot (List.mem_cons_of_mem _ hmem)⟩
      · exact ⟨k, he, .inr ⟨rfl, hlayer⟩, hefresh⟩
    · rintro ⟨j, hj, hjk, hnot⟩
      by_cases hee : e' = e
      · exact .inr hee
      · exact .inl ⟨j, hj, hjk, fun hmem => (List.mem_cons.mp hmem).elim hee hnot⟩
  have hnodup : (s.tight ++ [e]).Nodup := by
    refine List.nodup_append.mpr ⟨h.tight_nodup, List.nodup_singleton e, fun a ha b hb hab => ?_⟩
    rw [List.mem_singleton.mp hb] at hab
    exact hemem (hab ▸ ha)
  have hrest : ∀ e' ∈ todo, e' ∈ out (source e') ∧ IsDist (Link source target out) start k (source e') :=
    fun e' he' => h.todo_dist e' (List.mem_cons_of_mem _ he')
  unfold Search.along
  cases hlookup : s.dist.lookup (target e) with
  | none =>
    have hnew : ∀ j, IsDist (Link source target out) start j (target e) → ¬ (j ≤ k ∨ target e ∈ next) := by
      intro j hj hor
      have := (h.dist (target e) j).mpr ⟨hj, hor⟩
      rw [hlookup] at this
      cases this
    have hdist : IsDist (Link source target out) start (k + 1) (target e) := by
      obtain ⟨j, hj, hj'⟩ := hreach.exists_isDist
      have hjk : j = k + 1 := by
        have hgt : ¬ j ≤ k := fun hle => hnew j hj' (.inl hle)
        omega
      exact hjk ▸ hj'
    have hnext : target e ∉ next := fun hmem => hnew _ hdist (.inr hmem)
    refine ⟨next ++ [target e], ⟨by simp [h.queue], fun v j => ?_, h.layer_dist, h.layer_nodup, fun v hv => ?_, ?_, hrest,
      htodo, fun u hu hnot e' he' => ?_, h.order, h.order_nodup, h.order_sorted, htight ⟨heout, hsource, hdist⟩,
      hnodup, fun v hv => ?_⟩⟩
    · rw [HashMap.lookup_insert_ite]
      by_cases hv : v = target e
      · rw [if_pos hv]
        constructor
        · intro hj
          obtain rfl := Option.some.inj hj
          exact ⟨hv ▸ hdist, .inr (List.mem_append_right _ (List.mem_singleton.mpr hv))⟩
        · rintro ⟨hj, -⟩
          rw [hv] at hj
          rw [hj.unique hdist]
      · rw [if_neg hv, h.dist]
        refine and_congr_right fun _ => or_congr_right ?_
        rw [List.mem_append, List.mem_singleton]
        exact ⟨.inl, fun hmem => hmem.resolve_right hv⟩
    · rcases List.mem_append.mp hv with hv | hv
      · exact h.next_dist v hv
      · rw [List.mem_singleton.mp hv]
        exact hdist
    · refine List.nodup_append.mpr ⟨h.next_nodup, List.nodup_singleton _, fun a ha b hb hab => ?_⟩
      rw [List.mem_singleton.mp hb] at hab
      exact hnext (hab ▸ ha)
    · rw [AList.mem_insert]
      rcases h.met u hu hnot e' he' with hmem | hmem
      · rcases List.mem_cons.mp hmem with rfl | hmem
        · exact .inr (.inl rfl)
        · exact .inl hmem
      · exact .inr (.inr hmem)
    · rcases (AList.mem_insert _).mp hv with rfl | hv
      · exact .inr ⟨e, List.mem_append_right _ (List.mem_singleton_self e), rfl⟩
      · exact (h.found v hv).imp_right fun ⟨e', he', hv'⟩ => ⟨e', List.mem_append_left _ he', hv'⟩
  | some d =>
    dsimp only
    have hmet : ∀ u, IsDist (Link source target out) start k u → u ∉ layer → ∀ e' ∈ out u,
        e' ∈ todo ∨ target e' ∈ s.dist := by
      intro u hu hnot e' he'
      rcases h.met u hu hnot e' he' with hmem | hmem
      · rcases List.mem_cons.mp hmem with rfl | hmem
        · exact .inr ((HashMap.mem_iff_exists _ _).mpr ⟨d, hlookup⟩)
        · exact .inl hmem
      · exact .inr hmem
    by_cases hd : d = k + 1
    · rw [if_pos hd]
      have hdist := ((h.dist (target e) d).mp hlookup).1
      rw [hd] at hdist
      exact ⟨next, ⟨h.queue, h.dist, h.layer_dist, h.layer_nodup, h.next_dist, h.next_nodup, hrest, htodo, hmet, h.order,
        h.order_nodup, h.order_sorted, htight ⟨heout, hsource, hdist⟩, hnodup, fun v hv =>
          (h.found v hv).imp_right fun ⟨e', he', hv'⟩ => ⟨e', List.mem_append_left _ he', hv'⟩⟩⟩
    · rw [if_neg hd]
      refine ⟨next, ⟨h.queue, h.dist, h.layer_dist, h.layer_nodup, h.next_dist, h.next_nodup, hrest, htodo, hmet, h.order,
        h.order_nodup, h.order_sorted, fun e' => ?_, h.tight_nodup, h.found⟩⟩
      rw [h.tight]
      refine exists_congr fun j => and_congr_right fun hj => and_congr_right fun hjk => not_congr ?_
      rw [List.mem_cons]
      refine ⟨fun hmem => hmem.resolve_left ?_, .inr⟩
      -- an edge to a node that is known to be nearer is not tight
      rintro rfl
      have hdist := ((h.dist _ d).mp hlookup).1
      have hfirst := hj.2.1.unique hsource
      have hsecond := hj.2.2.unique hdist
      omega

/-- The edges of the current node. -/
lemma Inv.foldl (h : Inv source target out start k layer next todo s) (hlayer : ∀ e ∈ todo, source e ∉ layer) :
    ∃ next', Inv source target out start k layer next' [] (todo.foldl (Search.along target (k + 1)) s) := by
  induction todo generalizing next s with
  | nil => exact ⟨next, h⟩
  | cons e todo ih =>
    obtain ⟨next', h'⟩ := h.along (hlayer e List.mem_cons_self)
    exact ih h' fun e' he' => hlayer e' (List.mem_cons_of_mem _ he')

/-- The turn of a node. -/
theorem Inv.turn {u : V} (h : Inv source target out start k (u :: layer) next [] s) (hout : (out u).Nodup)
    (hsource : ∀ e ∈ out u, source e = u) :
    ∃ next', Inv source target out start k layer next' [] (turn target out u k s) := by
  refine (h.pop hout hsource).foldl fun e he => ?_
  rw [hsource e he]
  exact (List.nodup_cons.mp h.layer_nodup).1

/-- When a layer has been done the next one has been met as a whole. -/
lemma Inv.mem_next_iff (h : Inv source target out start k [] next [] s) {v : V} :
    v ∈ next ↔ IsDist (Link source target out) start (k + 1) v := by
  refine ⟨h.next_dist v, fun hv => ?_⟩
  obtain ⟨-, u, e, hu, heout, hsource, rfl⟩ := isDist_succ.mp hv
  rw [← hsource] at heout hu
  have hmet := (h.met (source e) hu List.not_mem_nil e heout).resolve_left List.not_mem_nil
  obtain ⟨j, hj, hjk | hmem⟩ := h.mem_dist.mp hmet
  · have := hj.unique hv
    omega
  · exact hmem

/-- The next layer begins. -/
theorem Inv.shift (h : Inv source target out start k [] next [] s) :
    Inv source target out start (k + 1) next [] [] s where
  queue := by rw [h.queue, List.nil_append, List.append_nil]
  dist v j := by
    rw [h.dist, h.mem_next_iff]
    refine and_congr_right fun hj => ?_
    constructor
    · rintro (hle | hv)
      · exact .inl (by omega)
      · exact .inl (hj.unique hv).le
    · rintro (hle | hv)
      · rcases Nat.lt_or_eq_of_le hle with hlt | heq
        · exact .inl (by omega)
        · exact .inr (heq ▸ hj)
      · cases hv
  layer_dist := h.next_dist
  layer_nodup := h.next_nodup
  next_dist v hv := absurd hv List.not_mem_nil
  next_nodup := List.nodup_nil
  todo_dist e he := absurd he List.not_mem_nil
  todo_nodup := List.nodup_nil
  met u hu hnot := absurd (h.mem_next_iff.mpr hu) hnot
  order v := by
    rw [h.order]
    refine exists_congr fun j => and_congr_right fun hj => ?_
    constructor
    · rintro (hlt | ⟨heq, -⟩)
      · exact .inl (by omega)
      · exact .inl (by omega)
    · rintro (hlt | ⟨heq, hnot⟩)
      · rcases Nat.lt_or_eq_of_le (Nat.le_of_lt_succ hlt) with hlt | heq
        · exact .inl hlt
        · exact .inr ⟨heq, List.not_mem_nil⟩
      · exact absurd (h.mem_next_iff.mpr (heq ▸ hj)) hnot
  order_nodup := h.order_nodup
  order_sorted := h.order_sorted
  tight e := by
    rw [h.tight]
    refine exists_congr fun j => and_congr_right fun hj => ?_
    simp only [List.not_mem_nil, not_false_eq_true, and_true]
    constructor
    · intro hle
      exact .inl (by omega)
    · rintro (hlt | ⟨heq, hnot⟩)
      · omega
      · exact absurd (h.mem_next_iff.mpr (heq ▸ hj.2.1)) hnot
  tight_nodup := h.tight_nodup
  found := h.found

/-- While the queue is not empty, its first node is the first of a layer. -/
theorem Inv.head {u : V} {rest : List V} (h : Inv source target out start k layer next [] s)
    (hqueue : s.queue = u :: rest) :
    ∃ k' layer' next', Inv source target out start k' (u :: layer') next' [] s := by
  have hboth := h.queue.symm.trans hqueue
  cases layer with
  | cons x layer =>
    obtain ⟨rfl, -⟩ := List.cons.inj hboth
    exact ⟨k, layer, next, h⟩
  | nil =>
    rw [List.nil_append] at hboth
    have hshift := h.shift
    rw [hboth] at hshift
    exact ⟨k + 1, rest, [], hshift⟩

/-- When the queue is empty every node has been met that a walk leads to. -/
theorem Inv.finished (h : Inv source target out start k layer next [] s) (hqueue : s.queue = []) {j : ℕ} {v : V}
    (hj : IsDist (Link source target out) start j v) : j ≤ k := by
  obtain ⟨rfl, rfl⟩ := List.append_eq_nil_iff.mp (h.queue.symm.trans hqueue)
  by_contra hgt
  obtain ⟨u, hu⟩ := hj.exists_le (Nat.lt_of_not_le hgt)
  exact absurd (h.mem_next_iff.mpr hu) List.not_mem_nil

/-- The nodes that are not met yet, and then the queue. -/
def rank (nodes : List V) (s : Search V E) : ℕ ×ₗ ℕ := toLex (Loop.unseen nodes s.dist, s.queue.length)

lemma rank_along_le {nodes : List V} (d : ℕ) (s : Search V E) {e : E} (he : target e ∈ nodes) :
    rank nodes (Search.along target d s e) ≤ rank nodes s := by
  unfold Search.along
  cases hlookup : s.dist.lookup (target e) with
  | none =>
    have hnew : target e ∉ s.dist := AList.lookup_eq_none.mp hlookup
    exact (Prod.Lex.toLex_lt_toLex.mpr (.inl (Loop.unseen_insert_lt d he hnew))).le
  | some d' =>
    dsimp only
    split <;> exact le_rfl

/-- Every turn comes nearer to the end. -/
theorem rank_turn_lt {nodes : List V} (hout : ∀ u, ∀ e ∈ out u, target e ∈ nodes) {u : V} {rest : List V}
    (hqueue : s.queue = u :: rest) (d : ℕ) : rank nodes (Search.turn target out u d s) < rank nodes s := by
  have hfold : ∀ (es : List E) (s : Search V E), (∀ e ∈ es, target e ∈ nodes) →
      rank nodes (es.foldl (Search.along target (d + 1)) s) ≤ rank nodes s := by
    intro es
    induction es with
    | nil => exact fun s _ => le_rfl
    | cons e es ih =>
      intro s hes
      exact (ih _ fun e' he' => hes e' (List.mem_cons_of_mem _ he')).trans
        (rank_along_le _ s (hes e List.mem_cons_self))
  refine (hfold (out u) _ (hout u)).trans_lt (Prod.Lex.toLex_lt_toLex.mpr (.inr ⟨rfl, ?_⟩))
  rw [hqueue]
  exact Nat.lt_succ_self _

end Search

end Walks
