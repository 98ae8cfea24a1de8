import MaharitDb.Lib.Dependency
import MaharitDb.Lib.Division
import MaharitDb.Core.AllPaths
import MaharitDb.Core.PageRank

/-!
# Betweenness centrality

`betweenness_centrality` of `maharit-core/src/algorithms.rs` over the rationals: Brandes' algorithm.  From every source a
breadth-first search counts the shortest paths and notes the predecessors; the nodes are then taken in the reverse order,
and each hands its dependency on to its predecessors.
-/

namespace Maharit

open Walks HashMap

/-- The search from one source between two turns of its loop. -/
structure BrandesState where
  queue : List NodeId
  stack : List NodeId
  predecessors : HashMap NodeId (List NodeId)
  sigma : HashMap NodeId ℚ
  dist : HashMap NodeId ℤ

namespace BrandesState

/-- An edge of the current node. -/
def scan (v : NodeId) (vDist : ℤ) (t : BrandesState) (edge : Edge) : BrandesState :=
  let w := edge.toNode
  let t :=
    if valueAt t.dist w < 0 then { t with dist := t.dist.insert w (vDist + 1), queue := t.queue ++ [w] }
    else t
  if valueAt t.dist w = vDist + 1 then
    { t with
      sigma := addAt t.sigma w (valueAt t.sigma v)
      predecessors := modify t.predecessors w (· ++ [v]) }
  else t

/-- One turn of the loop. -/
def step (g : Graph) (t : BrandesState) : BrandesState ⊕ BrandesState :=
  match t.queue with
  | [] => .inr t
  | v :: queue =>
      .inl ((g.getOutgoingEdges v).foldl (scan v (valueAt t.dist v)) { t with queue, stack := t.stack ++ [v] })

/-- The state before the loop. -/
def start (g : Graph) (source : NodeId) : BrandesState where
  queue := [source]
  stack := []
  predecessors := tabulate g.nodeIds fun _ => []
  sigma := (tabulate g.nodeIds fun _ => (0 : ℚ)).insert source 1
  dist := (tabulate g.nodeIds fun _ => (-1 : ℤ)).insert source 0

/-- A node that is popped from the stack: the dependencies, and those that count. -/
def accumulate (source : NodeId) (t : BrandesState) (st : HashMap NodeId ℚ × HashMap NodeId ℚ) (w : NodeId) :
    HashMap NodeId ℚ × HashMap NodeId ℚ :=
  let delta := ((t.predecessors.lookup w).getD []).foldl
    (fun delta v => addAt delta v (valueAt t.sigma v / valueAt t.sigma w * (1 + valueAt delta w))) st.1
  (delta, if w ≠ source then addAt st.2 w (valueAt delta w) else st.2)

end BrandesState

namespace Graph

/-- `brandes_single`. -/
def brandesSingle (g : Graph) (fuel : ℕ) (source : NodeId) : Option (HashMap NodeId ℚ) :=
  (Loop.run (BrandesState.step g) fuel (BrandesState.start g source)).map fun t =>
    (t.stack.reverse.foldl (t.accumulate source)
      (tabulate g.nodeIds fun _ => 0, tabulate g.nodeIds fun _ => 0)).2

/-- `betweenness_centrality`. -/
def betweennessCentrality (g : Graph) (d : Division) (fuel : ℕ) : Option (HashMap NodeId ℚ) :=
  let nodes := g.nodeIds
  let n := nodes.length
  if n = 0 then some ∅
  else
    let partialMaps :=
      if parallelThreshold ≤ n then d.map (g.brandesSingle fuel) nodes else nodes.map (g.brandesSingle fuel)
    (partialMaps.mapM id).map fun partialMaps =>
      let centrality := partialMaps.foldl
        (fun centrality partialMap => partialMap.entries.foldl (fun c e => addAt c e.1 e.2) centrality)
        (tabulate nodes fun _ => 0)
      if 2 < n then mapValues centrality (· * (1 / (((n : ℚ) - 1) * ((n : ℚ) - 2)))) else centrality

/-- The number of shortest paths from one node to another. -/
noncomputable def shortestPaths (g : Graph) (s t : NodeId) : ℕ := Set.ncard {p | IsShortest g.EdgeLink s t p}

/-- The number of those that lead over a node. -/
noncomputable def shortestPathsOver (g : Graph) (s t v : NodeId) : ℕ :=
  Set.ncard {p | IsShortest g.EdgeLink s t p ∧ v ∈ p.1}

/-- The betweenness of a node: over all ordered pairs of other nodes, the shares of the shortest paths that lead over it. -/
noncomputable def betweenness (g : Graph) (v : NodeId) : ℚ :=
  (g.nodeIds.map fun s => (g.nodeIds.map fun t =>
    if s ≠ t ∧ s ≠ v ∧ t ≠ v ∧ g.shortestPaths s t ≠ 0 then
      (g.shortestPathsOver s t v : ℚ) / g.shortestPaths s t
    else 0).sum).sum / (((g.nodeIds.length : ℚ) - 1) * ((g.nodeIds.length : ℚ) - 2))

/-- The bare search on the graph. -/
abbrev BareSearch (g : Graph) (source : NodeId) := Search.Inv Edge.fromNode Edge.toNode g.getOutgoingEdges source

lemma edgeLink_eq (g : Graph) : g.EdgeLink = Search.Link Edge.fromNode Edge.toNode g.getOutgoingEdges := rfl

lemma Adjacent.edges {g : Graph} (h : g.Adjacent) : Edges Edge.fromNode Edge.toNode g.getOutgoingEdges g.getIncomingEdges where
  mem_into v e := by
    rw [h.mem_incoming, h.mem_outgoing]
    exact and_congr_left fun _ => (and_iff_left rfl).symm
  nodup_into := h.nodup_incoming
  source_eq u e he := ((h.mem_outgoing u e).mp he).2
  nodup_out := h.nodup_outgoing

end Graph

/-! ## The counts -/

namespace BrandesState

variable {g : Graph} {source : NodeId}

/-- The search with counts stands where the bare one does. -/
structure Mirrors (g : Graph) (source : NodeId) (s : Search NodeId Edge) (t : BrandesState) : Prop where
  queue : t.queue = s.queue
  stack : t.stack = s.order
  dist : ∀ v ∈ g.nodeIds, t.dist.lookup v = some (((s.dist.lookup v).map fun d => (d : ℤ)).getD (-1))
  predecessors : ∀ v ∈ g.nodeIds, t.predecessors.lookup v = some ((s.tight.filter (·.toNode = v)).map Edge.fromNode)
  sigma : ∀ v ∈ g.nodeIds, t.sigma.lookup v = some (if v = source then 1
    else ((s.tight.filter (·.toNode = v)).map fun e => (shortest g.EdgeLink source e.fromNode : ℚ)).sum)

lemma mirrors_start : Mirrors g source (Search.init source) (start g source) where
  queue := rfl
  stack := rfl
  dist v hv := by
    rw [start, lookup_insert_ite, lookup_tabulate, if_pos hv, Search.init, lookup_insert_ite]
    by_cases heq : v = source
    · simp [heq]
    · simp [heq]
  predecessors v hv := by
    rw [start, lookup_tabulate, if_pos hv]
    rfl
  sigma v hv := by
    rw [start, lookup_insert_ite, lookup_tabulate, if_pos hv]
    by_cases heq : v = source
    · simp [heq]
    · simp [heq, Search.init]

/-- The predecessors of a node that has left the queue add up to all shortest paths to it. -/
lemma shortest_eq_sum (h : g.Adjacent) {k : ℕ} {layer next : List NodeId} {todo : List Edge} {s : Search NodeId Edge}
    (hs : g.BareSearch source k layer next todo s) {v : NodeId} {i : ℕ} (hv : IsDist g.EdgeLink source i v)
    (hi : i ≤ k) :
    (shortest g.EdgeLink source v : ℚ) = if v = source then 1
      else ((s.tight.filter (·.toNode = v)).map fun e => (shortest g.EdgeLink source e.fromNode : ℚ)).sum := by
  rw [Graph.edgeLink_eq] at hv ⊢
  cases i with
  | zero =>
    obtain rfl := isDist_zero.mp hv
    rw [if_pos rfl, h.edges.shortest_eq hv, count_zero, if_pos rfl, Nat.cast_one]
  | succ j =>
    have hne : v ≠ source := by
      intro heq
      have := hv.unique (isDist_zero.mpr heq)
      omega
    rw [if_neg hne, h.edges.shortest_succ hv (hs.tight_nodup.filter _)
      (hs.mem_tight_filter h.edges.mem_into hv (.inl hi)), Nat.cast_list_sum, List.map_map]
    rfl

/-- An edge of the current node in both searches. -/
lemma Mirrors.scan (h : g.Adjacent) {k : ℕ} {layer next : List NodeId} {e : Edge} {todo : List Edge}
    {s : Search NodeId Edge} {t : BrandesState} (hs : g.BareSearch source k layer next (e :: todo) s)
    (ht : Mirrors g source s t) :
    Mirrors g source (Search.along Edge.toNode (k + 1) s e) (t.scan e.fromNode k e) := by
  obtain ⟨heout, hcurrent⟩ := hs.todo_dist e List.mem_cons_self
  have heall := ((h.mem_outgoing _ e).mp heout).1
  have hfrom := h.fromNode_mem e heall
  have hto := h.toNode_mem e heall
  have hdist := ht.dist _ hto
  -- what the edge adds to the sums
  have hsigma : ∀ v, v ∈ g.nodeIds → e.toNode ≠ source →
      (addAt t.sigma e.toNode (valueAt t.sigma e.fromNode)).lookup v = some (if v = source then 1
        else (((s.tight ++ [e]).filter (·.toNode = v)).map fun e => (shortest g.EdgeLink source e.fromNode : ℚ)).sum) := by
    intro v hv hroot
    have hvalue : valueAt t.sigma e.fromNode = shortest g.EdgeLink source e.fromNode := by
      rw [valueAt, ht.sigma _ hfrom, Option.getD_some, shortest_eq_sum h hs hcurrent le_rfl]
    rw [addAt, lookup_modify, ht.sigma v hv, hvalue]
    by_cases heq : v = e.toNode
    · subst heq
      simp [hroot]
    · rw [if_neg heq, List.filter_append, List.filter_singleton, decide_eq_false (Ne.symm heq)]
      simp
  have hpreds : ∀ v, v ∈ g.nodeIds → (modify t.predecessors e.toNode (· ++ [e.fromNode])).lookup v =
      some (((s.tight ++ [e]).filter (·.toNode = v)).map Edge.fromNode) := by
    intro v hv
    rw [lookup_modify, ht.predecessors v hv]
    by_cases heq : v = e.toNode
    · subst heq
      simp
    · rw [if_neg heq, List.filter_append, List.filter_singleton, decide_eq_false (Ne.symm heq)]
      simp
  unfold Search.along BrandesState.scan
  dsimp only
  cases hlookup : s.dist.lookup e.toNode with
  | none =>
    have hroot : e.toNode ≠ source := by
      intro heq
      have hzero := (hs.dist e.toNode 0).mpr ⟨isDist_zero.mpr heq, .inl (Nat.zero_le k)⟩
      rw [hlookup] at hzero
      cases hzero
    rw [hlookup] at hdist
    have hunmet : valueAt t.dist e.toNode < 0 := by
      rw [valueAt, hdist]
      decide
    have hmet : valueAt (t.dist.insert e.toNode ((k : ℤ) + 1)) e.toNode = k + 1 := by
      rw [valueAt, lookup_insert_ite, if_pos rfl, Option.getD_some]
    simp only [if_pos hunmet, if_pos hmet]
    refine ⟨by simp [ht.queue], ht.stack, fun v hv => ?_, fun v hv => hpreds v hv, fun v hv => hsigma v hv hroot⟩
    rw [lookup_insert_ite, lookup_insert_ite]
    by_cases heq : v = e.toNode
    · simp [heq]
    · rw [if_neg heq, if_neg heq]
      exact ht.dist v hv
  | some d =>
    rw [hlookup] at hdist
    have hvalue : valueAt t.dist e.toNode = d := by
      rw [valueAt, hdist]
      rfl
    have hunmet : ¬ valueAt t.dist e.toNode < 0 := by
      rw [hvalue]
      exact not_lt.mpr (Int.natCast_nonneg d)
    rw [if_neg hunmet, hvalue]
    dsimp only
    by_cases hd : d = k + 1
    · have hd' : (d : ℤ) = k + 1 := by exact_mod_cast hd
      have hroot : e.toNode ≠ source := by
        intro heq
        have hzero := ((hs.dist e.toNode d).mp hlookup).1.unique (isDist_zero.mpr heq)
        omega
      rw [if_pos hd', if_pos hd]
      exact ⟨ht.queue, ht.stack, ht.dist, fun v hv => hpreds v hv, fun v hv => hsigma v hv hroot⟩
    · have hd' : ¬ (d : ℤ) = k + 1 := by exact_mod_cast hd
      rw [if_neg hd', if_neg hd]
      exact ht

/-- The edges of the current node in both searches. -/
lemma Mirrors.foldl (h : g.Adjacent) {k : ℕ} {layer next : List NodeId} {v : NodeId} {edges : List Edge}
    {s : Search NodeId Edge} {t : BrandesState} (hs : g.BareSearch source k layer next edges s)
    (ht : Mirrors g source s t) (hsource : ∀ e ∈ edges, e.fromNode = v) (hcurrent : v ∉ layer) :
    Mirrors g source (edges.foldl (Search.along Edge.toNode (k + 1)) s)
      (edges.foldl (BrandesState.scan v k) t) := by
  induction edges generalizing next s t with
  | nil => exact ht
  | cons e edges ih =>
    have hefrom := hsource e List.mem_cons_self
    obtain ⟨next', hs'⟩ := hs.along (by rw [hefrom]; exact hcurrent)
    have ht' := ht.scan h hs
    rw [hefrom] at ht'
    exact ih hs' ht' fun e' he' => hsource e' (List.mem_cons_of_mem _ he')

/-- A turn of the loop in both searches. -/
lemma Mirrors.turn (h : g.Adjacent) (hsource : source ∈ g.nodeIds) {k : ℕ} {layer next : List NodeId} {v : NodeId}
    {queue : List NodeId} {s : Search NodeId Edge} {t : BrandesState}
    (hs : g.BareSearch source k (v :: layer) next [] s) (ht : Mirrors g source s t) (hqueue : s.queue = v :: queue) :
    Mirrors g source (Search.turn Edge.toNode g.getOutgoingEdges v k s)
      ((g.getOutgoingEdges v).foldl (BrandesState.scan v (valueAt t.dist v)) { t with queue, stack := t.stack ++ [v] }) := by
  have hv := hs.layer_dist v List.mem_cons_self
  have hlive : v ∈ g.nodeIds := by
    cases k with
    | zero => exact isDist_zero.mp hv ▸ hsource
    | succ k =>
      obtain ⟨u, e, -, he, -, rfl⟩ := hv.1
      exact h.toNode_mem e ((h.mem_outgoing u e).mp he).1
  have hdist : valueAt t.dist v = k := by
    rw [valueAt, ht.dist v hlive, (hs.dist v k).mpr ⟨hv, .inl le_rfl⟩]
    rfl
  have hout := fun e he => h.edges.source_eq v e he
  have hpop : Mirrors g source { s with queue := s.queue.tail, order := s.order ++ [v] }
      { t with queue, stack := t.stack ++ [v] } :=
    ⟨by simp [hqueue], by rw [ht.stack], ht.dist, ht.predecessors, ht.sigma⟩
  rw [hdist]
  exact hpop.foldl h (hs.pop (h.nodup_outgoing v) hout) hout (List.nodup_cons.mp hs.layer_nodup).1

/-- The loop comes to the end of the bare search. -/
lemma run_withFuel (h : g.Adjacent) (hsource : source ∈ g.nodeIds) :
    ∃ t, (∃ s k layer next, g.BareSearch source k layer next [] s ∧ s.queue = [] ∧ Mirrors g source s t) ∧
      WithFuel (fun fuel => Loop.run (step g) fuel (start g source)) (· = some t) := by
  refine Loop.run_withFuel_history (step g)
    (fun (s : Search NodeId Edge) t => (∃ k layer next, g.BareSearch source k layer next [] s) ∧ Mirrors g source s t)
    _ (fun s _ => s.rank g.nodeIds) (fun s t t' hst hstep => ?_) (fun s t r hst hstep => ?_)
    ⟨⟨0, [source], [], Search.inv_init⟩, mirrors_start⟩
  · obtain ⟨⟨k, layer, next, hs⟩, ht⟩ := hst
    unfold BrandesState.step at hstep
    cases hqueue : t.queue with
    | nil =>
      rw [hqueue] at hstep
      cases hstep
    | cons v queue =>
      rw [hqueue] at hstep
      obtain rfl := Sum.inl.inj hstep
      have hsqueue : s.queue = v :: queue := ht.queue.symm.trans hqueue
      obtain ⟨k', layer', next', hs'⟩ := hs.head hsqueue
      obtain ⟨next'', hturn⟩ := hs'.turn (h.nodup_outgoing v) fun e he => h.edges.source_eq v e he
      exact ⟨_, ⟨⟨k', layer', next'', hturn⟩, ht.turn h hsource hs' hsqueue⟩,
        Search.rank_turn_lt (fun u e he => h.toNode_mem e ((h.mem_outgoing u e).mp he).1) hsqueue k'⟩
  · obtain ⟨⟨k, layer, next, hs⟩, ht⟩ := hst
    unfold BrandesState.step at hstep
    cases hqueue : t.queue with
    | nil =>
      rw [hqueue] at hstep
      obtain rfl := Sum.inr.inj hstep
      exact ⟨s, k, layer, next, hs, ht.queue.symm.trans hqueue, ht⟩
    | cons v queue =>
      rw [hqueue] at hstep
      cases hstep

/-! ## The dependencies -/

/-- The dependency of a node on the source. -/
noncomputable abbrev dep (g : Graph) (source v : NodeId) : ℚ := dependency g.EdgeLink g.nodeIds source v

/-- What an edge hands on to the node that it leaves. -/
noncomputable def handed (g : Graph) (source : NodeId) (e : Edge) : ℚ :=
  (shortest g.EdgeLink source e.fromNode : ℚ) / shortest g.EdgeLink source e.toNode * (1 + dep g source e.toNode)

/-- The predecessors of a node that is not among them get their contributions. -/
lemma lookup_foldl_contribution (c : NodeId → ℚ) (w : NodeId) {ps : List NodeId} (hw : w ∉ ps)
    (delta : HashMap NodeId ℚ) (u : NodeId) :
    (ps.foldl (fun delta v => addAt delta v (c v * (1 + valueAt delta w))) delta).lookup u =
      (delta.lookup u).map (· + ((ps.filter (· = u)).map fun v => c v * (1 + valueAt delta w)).sum) := by
  have hconstant : ps.foldl (fun delta v => addAt delta v (c v * (1 + valueAt delta w))) delta =
      ps.foldl (fun m v => addAt m v (c v * (1 + valueAt delta w))) delta := by
    have hsame : ∀ m : HashMap NodeId ℚ, valueAt m w = valueAt delta w →
        ps.foldl (fun delta v => addAt delta v (c v * (1 + valueAt delta w))) m =
          ps.foldl (fun m v => addAt m v (c v * (1 + valueAt delta w))) m := by
      induction ps with
      | nil => exact fun m _ => rfl
      | cons p ps ih =>
        intro m hm
        rw [List.foldl_cons, List.foldl_cons, hm]
        refine ih (fun hmem => hw (List.mem_cons_of_mem _ hmem)) _ ?_
        have hne : w ≠ p := fun heq => hw (heq ▸ List.mem_cons_self)
        rw [valueAt, addAt, lookup_modify, if_neg hne, ← hm, valueAt]
    exact hsame delta rfl
  rw [hconstant]
  exact lookup_foldl_addAt id (fun v => c v * (1 + valueAt delta w)) ps delta u

/-- The state after the nodes of `done` have been popped. -/
structure Accumulated (g : Graph) (source : NodeId) (tight : List Edge) (done : List NodeId)
    (st : HashMap NodeId ℚ × HashMap NodeId ℚ) : Prop where
  delta : ∀ v ∈ g.nodeIds, st.1.lookup v =
    some ((tight.filter fun e => e.fromNode = v ∧ e.toNode ∈ done).map (handed g source)).sum
  counted : ∀ v ∈ g.nodeIds, st.2.lookup v = some (if v ∈ done ∧ v ≠ source then dep g source v else 0)

/-- The edges that lead one step farther from a node. -/
lemma mem_farther (h : g.Adjacent) {k : ℕ} {layer next : List NodeId} {s : Search NodeId Edge}
    (hs : g.BareSearch source k layer next [] s) (hqueue : s.queue = []) {v : NodeId} {i : ℕ}
    (hv : IsDist g.EdgeLink source i v) (e : Edge) :
    e ∈ s.tight.filter (·.fromNode = v) ↔
      e ∈ g.getOutgoingEdges v ∧ IsDist g.EdgeLink source (i + 1) e.toNode := by
  rw [List.mem_filter, decide_eq_true_iff, hs.tight]
  obtain ⟨rfl, rfl⟩ := List.append_eq_nil_iff.mp (hs.queue.symm.trans hqueue)
  constructor
  · rintro ⟨⟨j, ⟨heout, hfrom, hto⟩, -⟩, rfl⟩
    obtain rfl := hfrom.unique hv
    exact ⟨heout, hto⟩
  · rintro ⟨he, hto⟩
    obtain rfl := h.edges.source_eq v e he
    refine ⟨⟨i, ⟨he, hv, hto⟩, ?_, List.not_mem_nil⟩, rfl⟩
    rcases (hs.finished hqueue hv).lt_or_eq with hlt | heq
    · exact .inl hlt
    · exact .inr ⟨heq, List.not_mem_nil⟩

/-- What its edges hand on to a node adds up to its dependency. -/
lemma dep_eq_sum (h : g.Adjacent) {k : ℕ} {layer next : List NodeId} {s : Search NodeId Edge}
    (hs : g.BareSearch source k layer next [] s) (hqueue : s.queue = []) {v : NodeId} {i : ℕ}
    (hv : IsDist g.EdgeLink source i v) :
    dep g source v = ((s.tight.filter (·.fromNode = v)).map (handed g source)).sum := by
  have hsum := h.edges.dependency_eq h.nodup_nodeIds (fun u e he => h.toNode_mem e ((h.mem_outgoing u e).mp he).1) hv
    (hs.tight_nodup.filter _) (mem_farther h hs hqueue hv)
  refine hsum.trans (congrArg List.sum (List.map_congr_left fun e he => ?_))
  rw [handed, of_decide_eq_true (List.mem_filter.mp he).2]
  rfl

/-- A node is popped from the stack after all nodes that are farther away. -/
lemma Accumulated.pop (h : g.Adjacent) (hsource : source ∈ g.nodeIds) {k : ℕ} {layer next : List NodeId}
    {s : Search NodeId Edge} {t : BrandesState} (hs : g.BareSearch source k layer next [] s) (hqueue : s.queue = [])
    (ht : Mirrors g source s t) {done rest : List NodeId} {w : NodeId} (hsplit : s.order.reverse = done ++ w :: rest)
    {st : HashMap NodeId ℚ × HashMap NodeId ℚ} (hst : Accumulated g source s.tight done st) :
    Accumulated g source s.tight (done ++ [w]) (t.accumulate source st w) := by
  have horder : s.order = rest.reverse ++ w :: done.reverse := by
    rw [← List.reverse_reverse s.order, hsplit]
    simp
  have hnodup := hs.order_nodup
  have hsorted := hs.order_sorted
  have hword : w ∈ s.order := by
    rw [horder]
    simp
  obtain ⟨i, hw, -⟩ := (hs.order w).mp hword
  have hlive : w ∈ g.nodeIds := by
    cases i with
    | zero => exact isDist_zero.mp hw ▸ hsource
    | succ i =>
      obtain ⟨u, e, -, he, -, rfl⟩ := hw.1
      exact h.toNode_mem e ((h.mem_outgoing u e).mp he).1
  have hwdone : w ∉ done := by
    rw [horder] at hnodup
    intro hmem
    have hrest := (List.nodup_cons.mp (List.nodup_append.mp hnodup).2.1).1
    exact hrest (List.mem_reverse.mpr hmem)
  -- the targets of its edges have been popped before
  have hbefore : ∀ e ∈ s.tight, e.fromNode = w → e.toNode ∈ done := by
    intro e he hfrom
    have hto := ((mem_farther h hs hqueue hw e).mp (List.mem_filter.mpr ⟨he, decide_eq_true hfrom⟩)).2
    have hmem : e.toNode ∈ s.order := by
      obtain ⟨rfl, -⟩ := List.append_eq_nil_iff.mp (hs.queue.symm.trans hqueue)
      refine (hs.order _).mpr ⟨i + 1, hto, ?_⟩
      rcases (hs.finished hqueue hto).lt_or_eq with hlt | heq
      · exact .inl hlt
      · exact .inr ⟨heq, List.not_mem_nil⟩
    rw [horder] at hmem hsorted
    rcases List.mem_append.mp hmem with hmem | hmem
    · have hle := (List.pairwise_append.mp hsorted).2.2 _ hmem w List.mem_cons_self (i + 1) i hto hw
      omega
    · rcases List.mem_cons.mp hmem with heq | hmem
      · rw [heq] at hto
        have := hto.unique hw
        omega
      · exact List.mem_reverse.mp hmem
  have hdelta : valueAt st.1 w = dep g source w := by
    rw [valueAt, hst.delta w hlive, Option.getD_some, dep_eq_sum h hs hqueue hw]
    refine congrArg (fun l : List Edge => (l.map (handed g source)).sum) (List.filter_congr fun e he => ?_)
    exact decide_eq_decide.mpr ⟨And.left, fun hfrom => ⟨hfrom, hbefore e he hfrom⟩⟩
  have hpreds : t.predecessors.lookup w = some ((s.tight.filter (·.toNode = w)).map Edge.fromNode) :=
    ht.predecessors w hlive
  have hself : w ∉ (s.tight.filter (·.toNode = w)).map Edge.fromNode := by
    intro hmem
    obtain ⟨e, he, hfrom⟩ := List.mem_map.mp hmem
    obtain ⟨he, hto⟩ := List.mem_filter.mp he
    exact hwdone (of_decide_eq_true hto ▸ hbefore e he hfrom)
  have hsigma : ∀ v ∈ g.nodeIds, ∀ j, IsDist g.EdgeLink source j v →
      valueAt t.sigma v = shortest g.EdgeLink source v := by
    intro v hv j hj
    rw [valueAt, ht.sigma v hv, Option.getD_some, shortest_eq_sum h hs hj (hs.finished hqueue hj)]
  have hdelta' : ∀ v ∈ g.nodeIds, (t.accumulate source st w).1.lookup v =
      some ((s.tight.filter fun e => e.fromNode = v ∧ e.toNode ∈ done ++ [w]).map (handed g source)).sum := by
    intro v hv
    rw [accumulate, hpreds, Option.getD_some]
    dsimp only
    rw [lookup_foldl_contribution (fun v => valueAt t.sigma v / valueAt t.sigma w) w hself, hst.delta v hv,
      Option.map_some, hdelta]
    refine congrArg some ?_
    -- the new edges are those into the node that is popped
    have hnew : (((s.tight.filter (·.toNode = w)).map Edge.fromNode).filter (· = v)).map
          (fun v => valueAt t.sigma v / valueAt t.sigma w * (1 + dep g source w)) =
        (s.tight.filter fun e => e.fromNode = v ∧ e.toNode = w).map (handed g source) := by
      rw [List.filter_map, List.map_map, List.filter_filter]
      have hfilter : (s.tight.filter fun e => ((fun u => decide (u = v)) ∘ Edge.fromNode) e && decide (e.toNode = w)) =
          s.tight.filter fun e => e.fromNode = v ∧ e.toNode = w := by
        refine List.filter_congr fun e _ => ?_
        simp
      rw [hfilter]
      refine List.map_congr_left fun e he => ?_
      obtain ⟨he, hmatch⟩ := List.mem_filter.mp he
      obtain ⟨hfrom, hto⟩ := of_decide_eq_true hmatch
      obtain ⟨j, ⟨-, hj, -⟩, -⟩ := (hs.tight e).mp he
      rw [Function.comp_apply, handed, hto, hsigma w hlive i hw, hfrom]
      rw [hfrom] at hj
      rw [hsigma v hv j hj]
    rw [hnew, List.sum_map_filter, List.sum_map_filter, ← List.sum_map_add, List.sum_map_filter]
    refine congrArg List.sum (List.map_congr_left fun e _ => ?_)
    simp only [decide_eq_true_eq, List.mem_append, List.mem_singleton]
    by_cases hfrom : e.fromNode = v
    · by_cases hto : e.toNode = w
      · simp [hfrom, hto, hwdone]
      · simp [hfrom, hto]
    · simp [hfrom]
  refine ⟨hdelta', fun v hv => ?_⟩
  have hvalue : valueAt (t.accumulate source st w).1 w = dep g source w := by
    rw [accumulate, hpreds, Option.getD_some, valueAt]
    dsimp only
    rw [lookup_foldl_contribution (fun v => valueAt t.sigma v / valueAt t.sigma w) w hself]
    have hnone : ((s.tight.filter (·.toNode = w)).map Edge.fromNode).filter (· = w) = [] :=
      List.filter_eq_nil_iff.mpr fun u hu heq => hself (of_decide_eq_true heq ▸ hu)
    rw [hnone, List.map_nil, List.sum_nil, hst.delta w hlive, Option.map_some, add_zero, Option.getD_some, ← hdelta,
      valueAt, hst.delta w hlive, Option.getD_some]
  have hcounted : (t.accumulate source st w).2 =
      if w ≠ source then addAt st.2 w (valueAt (t.accumulate source st w).1 w) else st.2 := rfl
  rw [hcounted, hvalue]
  by_cases hroot : w = source
  · rw [if_neg (not_not_intro hroot), hst.counted v hv]
    refine congrArg some (if_congr ?_ rfl rfl)
    rw [List.mem_append, List.mem_singleton]
    refine and_congr_left fun hne => (or_iff_left fun heq => hne ?_).symm
    rw [heq, hroot]
  · rw [if_pos hroot, addAt, lookup_modify, hst.counted v hv]
    by_cases hvw : v = w
    · simp [hvw, hwdone, hroot]
    · simp [hvw]

/-- All nodes are popped. -/
lemma Accumulated.foldl (h : g.Adjacent) (hsource : source ∈ g.nodeIds) {k : ℕ} {layer next : List NodeId}
    {s : Search NodeId Edge} {t : BrandesState} (hs : g.BareSearch source k layer next [] s) (hqueue : s.queue = [])
    (ht : Mirrors g source s t) {done rest : List NodeId} (hsplit : s.order.reverse = done ++ rest)
    {st : HashMap NodeId ℚ × HashMap NodeId ℚ} (hst : Accumulated g source s.tight done st) :
    Accumulated g source s.tight s.order.reverse (rest.foldl (t.accumulate source) st) := by
  induction rest generalizing done st with
  | nil =>
    rw [hsplit, List.append_nil]
    exact hst
  | cons w rest ih => exact ih (by rw [hsplit]; simp) (hst.pop h hsource hs hqueue ht hsplit)

end BrandesState

namespace Graph

variable {g : Graph}

/-- A node that is not reached has no dependency. -/
lemma dep_eq_zero {source v : NodeId} (hnone : ∀ i, ¬ IsDist g.EdgeLink source i v) :
    BrandesState.dep g source v = 0 := by
  refine List.sum_eq_zero fun x hx => ?_
  obtain ⟨t, -, rfl⟩ := List.mem_map.mp hx
  split
  · rfl
  · exact share_eq_zero' hnone t

/-- The search from one source comes to the dependencies on it. -/
lemma Adjacent.brandesSingle (h : g.Adjacent) {source : NodeId} (hsource : source ∈ g.nodeIds) :
    ∃ partialMap : HashMap NodeId ℚ,
      (∀ v ∈ g.nodeIds, valueAt partialMap v = if v = source then 0 else BrandesState.dep g source v) ∧
      WithFuel (fun fuel => g.brandesSingle fuel source) (· = some partialMap) := by
  obtain ⟨t, ⟨s, k, layer, next, hs, hqueue, ht⟩, hrun⟩ := BrandesState.run_withFuel h hsource
  have hstart : BrandesState.Accumulated g source s.tight []
      (tabulate g.nodeIds fun _ => 0, tabulate g.nodeIds fun _ => 0) := by
    refine ⟨fun v hv => ?_, fun v hv => ?_⟩
    · rw [lookup_tabulate, if_pos hv]
      simp
    · rw [lookup_tabulate, if_pos hv]
      simp
  have hend := hstart.foldl h hsource hs hqueue ht (List.nil_append s.order.reverse).symm
  refine ⟨(t.stack.reverse.foldl (t.accumulate source)
    (tabulate g.nodeIds fun _ => 0, tabulate g.nodeIds fun _ => 0)).2, fun v hv => ?_, ?_⟩
  · rw [ht.stack, valueAt, hend.counted v hv, Option.getD_some]
    by_cases hroot : v = source
    · simp [hroot]
    · by_cases hmem : v ∈ s.order.reverse
      · rw [if_pos ⟨hmem, hroot⟩, if_neg hroot]
      · rw [if_neg fun hand => hmem hand.1, if_neg hroot]
        refine (dep_eq_zero fun i hi => hmem (List.mem_reverse.mpr ((hs.order v).mpr ⟨i, hi, ?_⟩))).symm
        obtain ⟨rfl, -⟩ := List.append_eq_nil_iff.mp (hs.queue.symm.trans hqueue)
        rcases (hs.finished hqueue hi).lt_or_eq with hlt | heq
        · exact .inl hlt
        · exact .inr ⟨heq, List.not_mem_nil⟩
  · exact WithFuel.map (f := Option.map fun t : BrandesState => (t.stack.reverse.foldl (t.accumulate source)
      (tabulate g.nodeIds fun _ => 0, tabulate g.nodeIds fun _ => 0)).2)
      (R := (· = some (t.stack.reverse.foldl (t.accumulate source)
        (tabulate g.nodeIds fun _ => 0, tabulate g.nodeIds fun _ => 0)).2)) hrun fun r hr => by rw [hr, Option.map_some]

/-! ## The sum over all sources -/

/-- Merging the maps adds up what they have under each key. -/
lemma lookup_merge (partialMaps : List (HashMap NodeId ℚ)) (centrality : HashMap NodeId ℚ) (v : NodeId) :
    (partialMaps.foldl (fun centrality partialMap => partialMap.entries.foldl (fun c e => addAt c e.1 e.2) centrality)
      centrality).lookup v = (centrality.lookup v).map (· + (partialMaps.map fun m => valueAt m v).sum) := by
  induction partialMaps generalizing centrality with
  | nil => simp
  | cons partialMap partialMaps ih =>
    rw [List.foldl_cons, ih, lookup_foldl_addAt (fun e : (_ : NodeId) × ℚ => e.1) (fun e : (_ : NodeId) × ℚ => e.2),
      sum_filter_entries, Option.map_map, List.map_cons, List.sum_cons]
    refine congrArg (fun f => Option.map f (centrality.lookup v)) ?_
    funext x
    exact add_assoc ..

/-- No shortest path from a node to itself leads over another one. -/
lemma shortestOver_self {s v : NodeId} (hne : v ≠ s) : shortestOver g.EdgeLink s s v = 0 := by
  refine shortestOver_eq_zero fun p hp hmem => hne ?_
  obtain ⟨i, -, -, hi, hle, -⟩ := hp.split hmem
  have hzero := (isShortest_iff.mp hp).2.unique (isDist_zero.mpr rfl)
  obtain rfl : i = 0 := by omega
  exact isDist_zero.mp hi

/-- The dependencies on all sources are the shares of all pairs. -/
lemma sum_dep (g : Graph) (v : NodeId) :
    (g.nodeIds.map fun s => if v = s then 0 else BrandesState.dep g s v).sum =
      (g.nodeIds.map fun s => (g.nodeIds.map fun t =>
        if s ≠ t ∧ s ≠ v ∧ t ≠ v ∧ g.shortestPaths s t ≠ 0 then
          (g.shortestPathsOver s t v : ℚ) / g.shortestPaths s t
        else 0).sum).sum := by
  refine congrArg List.sum (List.map_congr_left fun s _ => ?_)
  by_cases hs : v = s
  · rw [if_pos hs]
    refine (List.sum_eq_zero fun x hx => ?_).symm
    obtain ⟨t, -, rfl⟩ := List.mem_map.mp hx
    exact if_neg fun hall => hall.2.1 hs.symm
  · rw [if_neg hs, BrandesState.dep, dependency]
    refine congrArg List.sum (List.map_congr_left fun t _ => ?_)
    by_cases ht : t = v
    · rw [if_pos ht, if_neg fun hall => hall.2.2.1 ht]
    · rw [if_neg ht, Walks.share]
      by_cases hst : s = t
      · rw [← hst, shortestOver_self hs, Nat.cast_zero, zero_div, if_neg fun hall => hall.1 rfl]
      · by_cases hzero : g.shortestPaths s t = 0
        · rw [if_neg fun hall => hall.2.2.2 hzero, show shortest g.EdgeLink s t = 0 from hzero, Nat.cast_zero, div_zero]
        · rw [if_pos ⟨hst, Ne.symm hs, ht, hzero⟩]
          rfl

/-- What the maps of the single sources have for a node adds up to the sum of what they are known to have. -/
lemma sum_valueAt {contribution : NodeId → ℚ} {v : NodeId} {sources : List NodeId}
    {partialMaps : List (HashMap NodeId ℚ)}
    (h : List.Forall₂ (fun source partialMap => valueAt partialMap v = contribution source) sources partialMaps) :
    (partialMaps.map fun m => valueAt m v).sum = (sources.map contribution).sum := by
  induction h with
  | nil => rfl
  | cons hfirst _ ih => rw [List.map_cons, List.map_cons, List.sum_cons, List.sum_cons, hfirst, ih]

/-- `betweenness_centrality` gives every live node its betweenness, whether the sources are divided between threads or
not. -/
theorem betweenness_centrality (g : Graph) (d : Division) (hg : g.Built) (hn : 2 < g.nodeIds.length) :
    ∃ centrality, WithFuel (fun fuel => g.betweennessCentrality d fuel) (· = some centrality) ∧
      ∀ v, centrality.lookup v = if v ∈ g.nodeIds then some (g.betweenness v) else none := by
  have h := hg.adjacent
  obtain ⟨partialMaps, hmaps, hrun⟩ := Loop.mapM_withFuel
    (fun source (partialMap : HashMap NodeId ℚ) =>
      ∀ v ∈ g.nodeIds, valueAt partialMap v = if v = source then 0 else BrandesState.dep g source v)
    (f := fun fuel source => g.brandesSingle fuel source) g.nodeIds fun source hsource => h.brandesSingle hsource
  let merged := partialMaps.foldl
    (fun centrality partialMap => partialMap.entries.foldl (fun c e => addAt c e.1 e.2) centrality)
    (tabulate g.nodeIds fun _ => (0 : ℚ))
  let norm : ℚ := 1 / (((g.nodeIds.length : ℚ) - 1) * ((g.nodeIds.length : ℚ) - 2))
  refine ⟨mapValues merged (· * norm), ?_, fun v => ?_⟩
  · unfold betweennessCentrality
    have hpositive : g.nodeIds.length ≠ 0 := by omega
    simp only [if_neg hpositive, Division.map_eq, ite_self, if_pos hn]
    exact WithFuel.map (f := Option.map fun partialMaps : List (HashMap NodeId ℚ) => mapValues (partialMaps.foldl
      (fun centrality partialMap => partialMap.entries.foldl (fun c e => addAt c e.1 e.2) centrality)
      (tabulate g.nodeIds fun _ => (0 : ℚ))) (· * norm))
      (R := (· = some (mapValues merged (· * norm)))) hrun fun r hr => by rw [hr, Option.map_some]
  · rw [lookup_mapValues, lookup_merge, lookup_tabulate]
    by_cases hv : v ∈ g.nodeIds
    · have hsum : (partialMaps.map fun m => valueAt m v).sum =
          (g.nodeIds.map fun s => if v = s then 0 else BrandesState.dep g s v).sum :=
        sum_valueAt (hmaps.imp fun _ _ hpost => hpost v hv)
      rw [if_pos hv, if_pos hv, hsum, sum_dep, Option.map_some, Option.map_some, zero_add, betweenness, mul_one_div]
    · rw [if_neg hv, if_neg hv]
      rfl

/-- Two ways of the same length from one node to another, one of them with two edges side by side. -/
def twoWays : Graph :=
  ofCalls [.createNodeWithLabels ["City"], .createNodeWithLabels ["City"], .createNodeWithLabels ["City"],
    .createNodeWithLabels ["City"], .createEdge 0 1 "ROAD", .createEdge 0 1 "ROAD", .createEdge 0 2 "ROAD",
    .createEdge 1 3 "ROAD", .createEdge 2 3 "ROAD"]

theorem betweenness_centrality_twoWays :
    ∃ centrality, WithFuel (fun fuel => twoWays.betweennessCentrality .whole fuel) (· = some centrality) ∧
      ∀ v, centrality.lookup v = if v ∈ twoWays.nodeIds then some (twoWays.betweenness v) else none :=
  betweenness_centrality twoWays .whole (built_ofCalls _ (by decide)) (by decide)

end Graph

end Maharit
