import Mathlib.Data.Set.Card
import MaharitDb.Lib.ShortestWalks
import MaharitDb.Lib.Tally

/-!
# Counting walks

How many walks with a given number of edges lead from one node to another.  The counts follow the last edges as well as
the first ones.  A shortest walk over a node is a shortest walk to that node and a walk of the remaining length from
there, so the shortest walks over a node are counted by a product.
-/

namespace Walks

variable {V E : Type}

/-! ## Joining and splitting -/

section

variable {link : V → E → V → Prop}

lemma IsWalk.append {u : V} {nodes nodes' : List V} {edges edges' : List E} (h : IsWalk link nodes edges)
    (hlast : nodes.getLast? = some u) (h' : IsWalk link (u :: nodes') edges') :
    IsWalk link (nodes ++ nodes') (edges ++ edges') := by
  induction nodes generalizing edges with
  | nil => cases hlast
  | cons x nodes ih =>
    cases nodes with
    | nil =>
      obtain rfl : x = u := by simpa using hlast
      cases edges with
      | nil => exact h'
      | cons e edges => exact h.elim
    | cons y nodes =>
      cases edges with
      | nil => exact h.elim
      | cons e edges =>
        have hlast' : (y :: nodes).getLast? = some u := by simpa using hlast
        exact ⟨h.1, ih h.2 hlast'⟩

lemma IsWalk.split {u : V} {before after : List V} {edges : List E} (h : IsWalk link (before ++ u :: after) edges) :
    IsWalk link (before ++ [u]) (edges.take before.length) ∧ IsWalk link (u :: after) (edges.drop before.length) := by
  induction before generalizing edges with
  | nil => exact ⟨trivial, h⟩
  | cons x before ih =>
    cases edges with
    | nil =>
      have hlength := h.length
      simp at hlength
    | cons e edges =>
      cases before with
      | nil => exact ⟨⟨h.1, trivial⟩, h.2⟩
      | cons y before =>
        obtain ⟨hfirst, hrest⟩ := ih h.2
        exact ⟨⟨h.1, hfirst⟩, hrest⟩

lemma WalksTo.append {s v t : V} {nodes nodes' : List V} {edges edges' : List E} (h : WalksTo link s v nodes edges)
    (h' : WalksTo link v t nodes' edges') : WalksTo link s t (nodes ++ nodes'.tail) (edges ++ edges') := by
  obtain ⟨x, tail, rfl⟩ := List.exists_cons_of_ne_nil h'.walk.ne_nil
  obtain rfl : x = v := Option.some.inj h'.head
  refine ⟨h.walk.append h.last h'.walk, ?_, ?_⟩
  · rw [List.head?_append_of_ne_nil _ h.walk.ne_nil, h.head]
  · have hlast' := h'.last
    cases tail with
    | nil =>
      obtain rfl : x = t := by simpa using hlast'
      simpa using h.last
    | cons y tail =>
      rw [List.tail_cons, List.getLast?_append_of_ne_nil _ (List.cons_ne_nil y tail)]
      simpa using hlast'

lemma WalksTo.split {s v t : V} {before after : List V} {edges : List E}
    (h : WalksTo link s t (before ++ v :: after) edges) :
    WalksTo link s v (before ++ [v]) (edges.take before.length) ∧
      WalksTo link v t (v :: after) (edges.drop before.length) := by
  obtain ⟨hfirst, hrest⟩ := h.walk.split
  refine ⟨⟨hfirst, ?_, List.getLast?_concat⟩, hrest, rfl, ?_⟩
  · have hhead := h.head
    cases before with
    | nil => exact hhead
    | cons x before => exact hhead
  · have hlast := h.last
    rwa [List.getLast?_append_of_ne_nil _ (List.cons_ne_nil v after)] at hlast

lemma Reaches.trans {s v t : V} {i j : ℕ} (h : Reaches link s i v) (h' : Reaches link v j t) :
    Reaches link s (i + j) t := by
  induction j generalizing t with
  | zero =>
    obtain rfl : t = v := h'
    exact h
  | succ j ih =>
    obtain ⟨u, e, hu, hlink⟩ := h'
    exact ⟨u, e, ih hu, hlink⟩

/-- The sets of listed things are counted by the list. -/
lemma ncard_of_list {A : Type} {s : Set A} {l : List A} (hnodup : l.Nodup) (hmem : ∀ a, a ∈ s ↔ a ∈ l) :
    s.ncard = l.length := by
  classical
  have hset : s = (l.toFinset : Set A) := by
    ext a
    rw [hmem, Finset.mem_coe, List.mem_toFinset]
  rw [hset, Set.ncard_coe_finset, List.toFinset_card_of_nodup hnodup]

end

/-! ## The counts -/

variable [DecidableEq V] (source : E → V) (into : V → List E)

/-- The number of walks with so many edges. -/
def count (s : V) (k : ℕ) (t : V) : ℕ := (walksOf source into s k t).length

variable {source into}

lemma count_zero (s t : V) : count source into s 0 t = if t = s then 1 else 0 := by
  rw [count, walksOf]
  split <;> rfl

/-- The walks by their last edges. -/
lemma count_succ (s : V) (k : ℕ) (t : V) :
    count source into s (k + 1) t = ((into t).map fun e => count source into s k (source e)).sum := by
  rw [count, walksOf, List.length_flatMap]
  simp [count]

variable {target : E → V} {out : V → List E}

/-- The lists of edges describe one graph. -/
structure Edges (source target : E → V) (out into : V → List E) : Prop where
  mem_into : ∀ v e, e ∈ into v ↔ e ∈ out (source e) ∧ target e = v
  nodup_into : ∀ v, (into v).Nodup
  source_eq : ∀ u, ∀ e ∈ out u, source e = u
  nodup_out : ∀ u, (out u).Nodup

/-- The walks by their first edges. -/
lemma Edges.count_succ' (h : Edges source target out into) (s : V) (k : ℕ) (t : V) :
    count source into s (k + 1) t = ((out s).map fun e => count source into (target e) k t).sum := by
  induction k generalizing t with
  | zero =>
    rw [count_succ]
    simp only [count_zero]
    -- the edges from `s` to `t`, found at either end
    have hperm : ((into t).filter (source · = s)).Perm ((out s).filter (target · = t)) := by
      refine (List.perm_ext_iff_of_nodup ((h.nodup_into t).filter _) ((h.nodup_out s).filter _)).mpr fun e => ?_
      rw [List.mem_filter, List.mem_filter, h.mem_into, decide_eq_true_iff, decide_eq_true_iff]
      constructor
      · rintro ⟨⟨he, ht⟩, rfl⟩
        exact ⟨he, ht⟩
      · rintro ⟨he, ht⟩
        have hs := h.source_eq s e he
        exact ⟨⟨hs.symm ▸ he, ht⟩, hs⟩
    have hcount : ∀ (l : List E) (key : E → V) (x : V),
        (l.map fun e => if key e = x then 1 else 0).sum = (l.filter (key · = x)).length := by
      intro l key x
      induction l with
      | nil => rfl
      | cons e l ih =>
        by_cases he : key e = x
        · simp [he, ih, Nat.add_comm]
        · simp [he, ih]
    rw [hcount, hperm.length_eq, ← hcount]
    simp only [eq_comm]
  | succ k ih =>
    rw [count_succ]
    simp only [ih]
    rw [List.sum_map_comm]
    refine congrArg List.sum (List.map_congr_left fun e _ => ?_)
    rw [count_succ]

/-- There are walks exactly where there is one. -/
lemma Edges.count_pos_iff (h : Edges source target out into) {s t : V} {k : ℕ} :
    0 < count source into s k t ↔ Reaches (Search.Link source target out) s k t := by
  rw [count, List.length_pos_iff_exists_mem]
  constructor
  · rintro ⟨p, hp⟩
    obtain ⟨hwalk, rfl⟩ := (mem_walksOf h.mem_into).mp hp
    exact hwalk.reaches
  · intro hreach
    obtain ⟨nodes, edges, hwalk, hlength⟩ := hreach.exists_walksTo
    exact ⟨(nodes, edges), (mem_walksOf h.mem_into).mpr ⟨hwalk, hlength⟩⟩

/-! ## Shortest walks -/

/-- The number of shortest walks. -/
noncomputable def shortest (link : V → E → V → Prop) (s t : V) : ℕ := Set.ncard {p | IsShortest link s t p}

/-- The number of shortest walks over a node. -/
noncomputable def shortestOver (link : V → E → V → Prop) (s t v : V) : ℕ :=
  Set.ncard {p | IsShortest link s t p ∧ v ∈ p.1}

lemma Edges.shortest_eq (h : Edges source target out into) {s t : V} {d : ℕ}
    (ht : IsDist (Search.Link source target out) s d t) :
    shortest (Search.Link source target out) s t = count source into s d t := by
  refine ncard_of_list (nodup_walksOf h.nodup_into d t) fun p => ?_
  rw [Set.mem_ofPred_eq, isShortest_iff, mem_walksOf h.mem_into]
  refine and_congr_right fun _ => ⟨fun hdist => hdist.unique ht, fun hlength => hlength ▸ ht⟩

lemma Edges.shortest_pos (h : Edges source target out into) {s t : V} {d : ℕ}
    (ht : IsDist (Search.Link source target out) s d t) : 0 < shortest (Search.Link source target out) s t := by
  rw [h.shortest_eq ht]
  exact h.count_pos_iff.mpr ht.1

/-- The shortest walks to a node by their last edges, which come from the distance before. -/
lemma Edges.shortest_succ (h : Edges source target out into) {s v : V} {j : ℕ}
    (hv : IsDist (Search.Link source target out) s (j + 1) v) {l : List E} (hl : l.Nodup)
    (hmem : ∀ e, e ∈ l ↔ e ∈ into v ∧ IsDist (Search.Link source target out) s j (source e)) :
    shortest (Search.Link source target out) s v =
      (l.map fun e => shortest (Search.Link source target out) s (source e)).sum := by
  have hlength := (perm_walksOf h.mem_into h.nodup_into hv hl hmem).length_eq
  rw [h.shortest_eq hv, count, ← hlength, List.length_flatMap]
  refine congrArg List.sum (List.map_congr_left fun e he => ?_)
  rw [List.length_map, h.shortest_eq ((hmem e).mp he).2, count]

omit [DecidableEq V] in
lemma shortestOver_eq_zero {link : V → E → V → Prop} {s t v : V}
    (hnone : ∀ p, IsShortest link s t p → v ∉ p.1) : shortestOver link s t v = 0 := by
  rw [shortestOver, show {p : List V × List E | IsShortest link s t p ∧ v ∈ p.1} = ∅ from ?_, Set.ncard_empty]
  exact Set.eq_empty_iff_forall_notMem.mpr fun p hp => hnone p hp.1 hp.2

omit [DecidableEq V] in
/-- A shortest walk over a node is a shortest walk to it and one of the remaining length from it. -/
lemma IsShortest.split {link : V → E → V → Prop} {s t v : V} {p : List V × List E} (h : IsShortest link s t p)
    (hv : v ∈ p.1) :
    ∃ i before after, IsDist link s i v ∧ i ≤ p.2.length ∧ p.1 = before ++ v :: after ∧ before.length = i ∧
      WalksTo link s v (before ++ [v]) (p.2.take i) ∧ WalksTo link v t (v :: after) (p.2.drop i) := by
  obtain ⟨hwalk, hdist⟩ := isShortest_iff.mp h
  obtain ⟨before, after, hsplit⟩ := List.append_of_mem hv
  rw [hsplit] at hwalk
  obtain ⟨hfirst, hrest⟩ := hwalk.split
  have hlength : before.length ≤ p.2.length := by
    have hnodes := hwalk.walk.length
    rw [List.length_append, List.length_cons] at hnodes
    omega
  have hreach := hfirst.reaches
  rw [List.length_take, Nat.min_eq_left hlength] at hreach
  refine ⟨before.length, before, after, ⟨hreach, fun j hj hnear => ?_⟩, hlength, hsplit, rfl, hfirst, hrest⟩
  -- a shorter walk to the node would make the whole walk shorter
  have htotal := hnear.trans hrest.reaches
  rw [List.length_drop] at htotal
  exact hdist.2 _ (by omega) htotal

lemma Edges.shortestOver_eq (h : Edges source target out into) {s t v : V} {i d : ℕ}
    (hv : IsDist (Search.Link source target out) s i v) (ht : IsDist (Search.Link source target out) s d t)
    (hle : i ≤ d) :
    shortestOver (Search.Link source target out) s t v = count source into s i v * count source into v (d - i) t := by
  have hnodup : ((walksOf source into s i v).flatMap fun p =>
      (walksOf source into v (d - i) t).map fun q => (p.1 ++ q.1.tail, p.2 ++ q.2)).Nodup := by
    have hlength : ∀ p ∈ walksOf source into s i v, p.1.length = i + 1 ∧ p.2.length = i := by
      intro p hp
      obtain ⟨hwalk, hedges⟩ := (mem_walksOf h.mem_into).mp hp
      exact ⟨by rw [hwalk.walk.length, hedges], hedges⟩
    have hhead : ∀ q ∈ walksOf source into v (d - i) t, ∃ tail, q.1 = v :: tail := by
      intro q hq
      obtain ⟨hwalk, -⟩ := (mem_walksOf h.mem_into).mp hq
      obtain ⟨x, tail, heq⟩ := List.exists_cons_of_ne_nil hwalk.walk.ne_nil
      have hx := hwalk.head
      rw [heq] at hx
      exact ⟨tail, by rw [heq, Option.some.inj hx]⟩
    refine List.nodup_flatMap.mpr ⟨fun p hp => ?_, ?_⟩
    · refine List.Nodup.map_on (fun q hq q' hq' heq => ?_) (nodup_walksOf h.nodup_into _ _)
      obtain ⟨hnodes, hedges⟩ := Prod.mk.inj heq
      obtain ⟨tail, htail⟩ := hhead q hq
      obtain ⟨tail', htail'⟩ := hhead q' hq'
      have htails := List.append_cancel_left hnodes
      rw [htail, htail', List.tail_cons, List.tail_cons] at htails
      exact Prod.ext (by rw [htail, htail', htails]) (List.append_cancel_left hedges)
    · refine (nodup_walksOf h.nodup_into i v).imp_of_mem fun {p p'} hp hp' hne => ?_
      intro r hr hr'
      obtain ⟨q, -, rfl⟩ := List.mem_map.mp hr
      obtain ⟨q', -, heq⟩ := List.mem_map.mp hr'
      obtain ⟨hnodes, hedges⟩ := Prod.mk.inj heq
      obtain ⟨hp1, hp2⟩ := hlength p hp
      obtain ⟨hp1', hp2'⟩ := hlength p' hp'
      exact hne (Prod.ext (List.append_inj hnodes (hp1'.trans hp1.symm)).1.symm
        (List.append_inj hedges (hp2'.trans hp2.symm)).1.symm)
  refine (ncard_of_list hnodup fun r => ?_).trans ?_
  · rw [Set.mem_ofPred_eq, List.mem_flatMap]
    constructor
    · rintro ⟨hshort, hmem⟩
      have hlengths := (isShortest_iff.mp hshort).2.unique ht
      obtain ⟨j, before, after, hj, hjle, hsplit, hbefore, hfirst, hrest⟩ := hshort.split hmem
      obtain rfl := hj.unique hv
      refine ⟨(before ++ [v], r.2.take j), (mem_walksOf h.mem_into).mpr ⟨hfirst, ?_⟩, List.mem_map.mpr
        ⟨(v :: after, r.2.drop j), (mem_walksOf h.mem_into).mpr ⟨hrest, ?_⟩, ?_⟩⟩
      · rw [List.length_take, Nat.min_eq_left hjle]
      · rw [List.length_drop, hlengths]
      · refine Prod.ext ?_ (List.take_append_drop ..)
        rw [hsplit]
        simp
    · rintro ⟨p, hp, hr⟩
      obtain ⟨q, hq, rfl⟩ := List.mem_map.mp hr
      obtain ⟨hwalk, hlength⟩ := (mem_walksOf h.mem_into).mp hp
      obtain ⟨hwalk', hlength'⟩ := (mem_walksOf h.mem_into).mp hq
      have htotal : (p.2 ++ q.2).length = d := by
        rw [List.length_append, hlength, hlength']
        omega
      refine ⟨isShortest_iff.mpr ⟨hwalk.append hwalk', ?_⟩, List.mem_append_left _ ?_⟩
      · show IsDist _ s (p.2 ++ q.2).length t
        rw [htotal]
        exact ht
      · exact List.mem_of_getLast? hwalk.last
  · rw [List.length_flatMap]
    simp [count]

omit [DecidableEq V] in
/-- No shortest walk leads over a node that is farther away than its end. -/
lemma shortestOver_eq_zero_of_lt {link : V → E → V → Prop} {s t v : V} {i d : ℕ} (hv : IsDist link s i v)
    (ht : IsDist link s d t) (hlt : d < i) : shortestOver link s t v = 0 := by
  refine shortestOver_eq_zero fun p hp hmem => ?_
  obtain ⟨j, -, -, hj, hle, -⟩ := hp.split hmem
  have hlength := (isShortest_iff.mp hp).2.unique ht
  have := hj.unique hv
  omega

end Walks
