import Mathlib.Algebra.BigOperators.Ring.List
import Mathlib.Algebra.Order.BigOperators.Group.List
import Mathlib.Data.Rat.Defs
import MaharitDb.Lib.Division
import MaharitDb.Lib.Tally
import MaharitDb.Core.Adjacency

/-!
# PageRank

`pagerank` of `maharit-core/src/algorithms.rs` over the rationals.  An iteration hands the score of every node on: along
its edges, or to all nodes alike when it has none.  Its three loops come to one linear update whose rows add up to one,
so the scores stay non-negative and always add up to one.
-/

namespace Maharit

/-- The graphs from this size on are worked off in parallel (`PARALLEL_THRESHOLD`). -/
def parallelThreshold : ℕ := 500

/-- The configuration. -/
structure PageRankConfig where
  damping : ℚ
  maxIterations : ℕ
  tolerance : ℚ

/-- The result. -/
structure PageRankResult where
  scores : HashMap NodeId ℚ
  iterations : ℕ
  converged : Bool

namespace Graph

open HashMap

/-- The number of edges that leave each node. -/
def outDegrees (g : Graph) : HashMap NodeId ℕ := tabulate g.nodeIds fun id => (g.getOutgoingEdges id).length

/-- The new scores of one iteration. -/
def pagerankIteration (d : Division) (g : Graph) (damping : ℚ) (scores : HashMap NodeId ℚ) : HashMap NodeId ℚ :=
  let nodes := g.nodeIds
  let n : ℚ := nodes.length
  let outDegree := g.outDegrees
  let teleport := (1 - damping) / n
  let danglingNodes := nodes.filter fun id => valueAt outDegree id = 0
  -- the edges hand on
  let newScores := g.allEdges.foldl (fun newScores edge =>
      let fromDegree := valueAt outDegree edge.fromNode
      if 0 < fromDegree then
        addAt newScores edge.toNode (damping * valueAt scores edge.fromNode / fromDegree)
      else newScores)
    (tabulate nodes fun _ => teleport)
  -- the nodes without edges hand on to all nodes
  let danglingSum :=
    if parallelThreshold ≤ nodes.length then d.sum (danglingNodes.map (valueAt scores))
    else (danglingNodes.map (valueAt scores)).sum
  let danglingContribution := damping * danglingSum / n
  mapValues newScores (· + danglingContribution)

/-- The loop; it ends early when the scores hardly change any more. -/
def pagerankLoop (d : Division) (g : Graph) (config : PageRankConfig) : ℕ → PageRankResult → PageRankResult
  | 0, r => r
  | rounds + 1, r =>
      let newScores := g.pagerankIteration d config.damping r.scores
      let diff := (g.nodeIds.map fun id => |valueAt newScores id - valueAt r.scores id|).sum
      if diff < config.tolerance then ⟨newScores, r.iterations + 1, true⟩
      else pagerankLoop d g config rounds ⟨newScores, r.iterations + 1, r.converged⟩

/-- The scores before the first iteration. -/
def initialScores (g : Graph) : HashMap NodeId ℚ := tabulate g.nodeIds fun _ => 1 / (g.nodeIds.length : ℚ)

/-- `pagerank`. -/
def pagerank (d : Division) (g : Graph) (config : PageRankConfig) : PageRankResult :=
  if g.nodeIds.length = 0 then ⟨∅, 0, true⟩
  else g.pagerankLoop d config config.maxIterations ⟨g.initialScores, 0, false⟩

/-! ## One iteration -/

/-- What a node hands on to another: as many shares as edges lead there; without edges all nodes get the same. -/
def share (g : Graph) (u v : NodeId) : ℚ :=
  if (g.getOutgoingEdges u).length = 0 then 1 / (g.nodeIds.length : ℚ)
  else ((g.getOutgoingEdges u).countP (·.toNode = v) : ℚ) / (g.getOutgoingEdges u).length

/-- The linear update: what all nodes hand on to a node, and the teleportation. -/
def update (g : Graph) (damping : ℚ) (score : NodeId → ℚ) (v : NodeId) : ℚ :=
  (1 - damping) / (g.nodeIds.length : ℚ) + damping * (g.nodeIds.map fun u => score u * g.share u v).sum

variable {g : Graph}

/-- The edges that leave a node, found among all edges. -/
lemma Adjacent.perm_outgoing (h : g.Adjacent) (u : NodeId) :
    (g.allEdges.filter (·.fromNode = u)).Perm (g.getOutgoingEdges u) := by
  refine (List.perm_ext_iff_of_nodup (h.nodup_allEdges.filter _) (h.nodup_outgoing u)).mpr fun e => ?_
  rw [List.mem_filter, h.mem_outgoing, decide_eq_true_iff]

lemma Adjacent.outDegree_pos (h : g.Adjacent) {e : Edge} (he : e ∈ g.allEdges) :
    0 < (g.getOutgoingEdges e.fromNode).length :=
  List.length_pos_of_mem ((h.mem_outgoing _ e).mpr ⟨he, rfl⟩)

lemma valueAt_outDegrees {u : NodeId} (hu : u ∈ g.nodeIds) :
    valueAt g.outDegrees u = (g.getOutgoingEdges u).length :=
  valueAt_tabulate _ hu

/-- The first loop: what the edges hand on to a node. -/
lemma Adjacent.sum_contributions (h : g.Adjacent) (damping : ℚ) (scores : HashMap NodeId ℚ) (v : NodeId) :
    ((g.allEdges.filter (·.toNode = v)).map fun e =>
        damping * valueAt scores e.fromNode / ((valueAt g.outDegrees e.fromNode : ℕ) : ℚ)).sum =
      (g.nodeIds.map fun u => ((g.getOutgoingEdges u).countP (·.toNode = v) : ℚ) *
        (damping * valueAt scores u / ((g.getOutgoingEdges u).length : ℚ))).sum := by
  rw [← List.sum_map_fibers Edge.fromNode _ h.nodup_nodeIds
    (fun e he => h.fromNode_mem e (List.mem_of_mem_filter he))]
  refine congrArg List.sum (List.map_congr_left fun u hu => ?_)
  have hcount : ((g.allEdges.filter (·.toNode = v)).filter (·.fromNode = u)).length =
      (g.getOutgoingEdges u).countP (·.toNode = v) := by
    rw [List.filter_comm, ← List.countP_eq_length_filter]
    exact (h.perm_outgoing u).countP_eq _
  have hsame : ∀ e ∈ (g.allEdges.filter (·.toNode = v)).filter (·.fromNode = u),
      damping * valueAt scores e.fromNode / ((valueAt g.outDegrees e.fromNode : ℕ) : ℚ) =
        damping * valueAt scores u / ((g.getOutgoingEdges u).length : ℚ) := by
    intro e he
    have hfrom : e.fromNode = u := by simpa using (List.mem_filter.mp he).2
    rw [hfrom, valueAt_outDegrees hu]
  rw [List.map_congr_left hsame, List.map_const', List.sum_replicate, hcount, nsmul_eq_mul]

/-- The second loop: the scores of the nodes without edges. -/
lemma sum_dangling (scores : HashMap NodeId ℚ) :
    ((g.nodeIds.filter fun id => valueAt g.outDegrees id = 0).map (valueAt scores)).sum =
      (g.nodeIds.map fun u => if (g.getOutgoingEdges u).length = 0 then valueAt scores u else 0).sum := by
  rw [List.sum_map_filter]
  refine congrArg List.sum (List.map_congr_left fun u hu => ?_)
  simp only [decide_eq_true_eq, valueAt_outDegrees hu]

/-- One iteration gives every node its score after the linear update. -/
theorem Adjacent.lookup_iteration (h : g.Adjacent) (d : Division) (damping : ℚ) (scores : HashMap NodeId ℚ)
    (v : NodeId) : (g.pagerankIteration d damping scores).lookup v =
      if v ∈ g.nodeIds then some (g.update damping (valueAt scores) v) else none := by
  have hguard : ∀ newScores : HashMap NodeId ℚ, g.allEdges.foldl (fun newScores edge =>
        if 0 < valueAt g.outDegrees edge.fromNode then
          addAt newScores edge.toNode
            (damping * valueAt scores edge.fromNode / ((valueAt g.outDegrees edge.fromNode : ℕ) : ℚ))
        else newScores) newScores =
      g.allEdges.foldl (fun newScores edge => addAt newScores edge.toNode
        (damping * valueAt scores edge.fromNode / ((valueAt g.outDegrees edge.fromNode : ℕ) : ℚ))) newScores := by
    intro newScores
    refine List.foldl_ext _ _ _ fun newScores edge hedge => if_pos ?_
    rw [valueAt_outDegrees (h.fromNode_mem edge hedge)]
    exact h.outDegree_pos hedge
  unfold pagerankIteration
  simp only [Division.sum_eq, ite_self, hguard]
  rw [lookup_mapValues, lookup_foldl_addAt, lookup_tabulate]
  by_cases hv : v ∈ g.nodeIds
  · rw [if_pos hv, if_pos hv, Option.map_some, Option.map_some, h.sum_contributions, sum_dangling, update]
    congr 1
    rw [add_assoc]
    congr 1
    rw [mul_div_assoc, div_eq_mul_inv, ← List.sum_map_mul_right, ← List.sum_map_mul_left, ← List.sum_map_mul_left,
      ← List.sum_map_add]
    refine congrArg List.sum (List.map_congr_left fun u _ => ?_)
    unfold share
    by_cases hu : (g.getOutgoingEdges u).length = 0
    · rw [if_pos hu, if_pos hu, hu]
      simp
    · rw [if_neg hu, if_neg hu]
      ring
  · rw [if_neg hv, if_neg hv]
    rfl

/-! ## The mass -/

/-- What a node hands on adds up to its score. -/
lemma Adjacent.sum_share (h : g.Adjacent) (hne : g.nodeIds ≠ []) (u : NodeId) :
    (g.nodeIds.map (g.share u)).sum = 1 := by
  have hn : (g.nodeIds.length : ℚ) ≠ 0 := by
    simpa using hne
  by_cases hu : (g.getOutgoingEdges u).length = 0
  · have hshare : g.nodeIds.map (g.share u) = g.nodeIds.map fun _ => 1 / (g.nodeIds.length : ℚ) :=
      List.map_congr_left fun v _ => if_pos hu
    rw [hshare, List.map_const', List.sum_replicate, nsmul_eq_mul, mul_one_div_cancel hn]
  · have hshare : g.nodeIds.map (g.share u) = g.nodeIds.map fun v =>
        ((g.getOutgoingEdges u).countP (·.toNode = v) : ℚ) * ((g.getOutgoingEdges u).length : ℚ)⁻¹ :=
      List.map_congr_left fun v _ => (if_neg hu).trans (div_eq_mul_inv _ _)
    have hcount : (g.nodeIds.map fun v => ((g.getOutgoingEdges u).countP (·.toNode = v) : ℚ)).sum =
        (g.getOutgoingEdges u).length := by
      have hfibers := List.sum_map_fibers Edge.toNode (fun _ => (1 : ℚ)) h.nodup_nodeIds
        (l := g.getOutgoingEdges u) fun e he => h.toNode_mem e ((h.mem_outgoing u e).mp he).1
      simpa [List.countP_eq_length_filter] using hfibers
    rw [hshare, List.sum_map_mul_right, hcount]
    exact mul_inv_cancel₀ (Nat.cast_ne_zero.mpr hu)

lemma share_nonneg (g : Graph) (u v : NodeId) : 0 ≤ g.share u v := by
  unfold share
  split <;> positivity

/-- The update keeps scores non-negative. -/
lemma update_nonneg {damping : ℚ} (hlow : 0 ≤ damping) (hhigh : damping ≤ 1) {score : NodeId → ℚ}
    (hscore : ∀ u ∈ g.nodeIds, 0 ≤ score u) (v : NodeId) : 0 ≤ g.update damping score v := by
  have hteleport : 0 ≤ (1 - damping) / (g.nodeIds.length : ℚ) :=
    div_nonneg (sub_nonneg.mpr hhigh) (Nat.cast_nonneg _)
  have hsum : 0 ≤ (g.nodeIds.map fun u => score u * g.share u v).sum := by
    refine List.sum_nonneg fun x hx => ?_
    obtain ⟨u, hu, rfl⟩ := List.mem_map.mp hx
    exact mul_nonneg (hscore u hu) (g.share_nonneg u v)
  exact add_nonneg hteleport (mul_nonneg hlow hsum)

/-- The update keeps the mass. -/
lemma Adjacent.sum_update (h : g.Adjacent) (hne : g.nodeIds ≠ []) (damping : ℚ) {score : NodeId → ℚ}
    (hscore : (g.nodeIds.map score).sum = 1) : (g.nodeIds.map (g.update damping score)).sum = 1 := by
  have hn : (g.nodeIds.length : ℚ) ≠ 0 := by
    simpa using hne
  have hexchange : (g.nodeIds.map fun v => (g.nodeIds.map fun u => score u * g.share u v).sum).sum = 1 := by
    rw [List.sum_map_comm]
    have hrow : ∀ u ∈ g.nodeIds, (g.nodeIds.map fun v => score u * g.share u v).sum = score u := by
      intro u _
      rw [List.sum_map_mul_left, h.sum_share hne, mul_one]
    rw [List.map_congr_left hrow, hscore]
  unfold update
  rw [List.sum_map_add, List.sum_map_mul_left, hexchange, List.map_const', List.sum_replicate, nsmul_eq_mul,
    mul_div_cancel₀ _ hn]
  ring

/-! ## All iterations -/

/-- Every node has a score, none is negative, and they add up to one. -/
structure Distributed (g : Graph) (scores : HashMap NodeId ℚ) : Prop where
  mem_iff : ∀ v, v ∈ scores ↔ v ∈ g.nodeIds
  nonneg : ∀ v score, scores.lookup v = some score → 0 ≤ score
  total : HashMap.total scores = 1

/-- The scores after so many iterations. -/
def scoresAfter (d : Division) (g : Graph) (damping : ℚ) (k : ℕ) : HashMap NodeId ℚ :=
  (g.pagerankIteration d damping)^[k] g.initialScores

lemma Distributed.valueAt_nonneg {scores : HashMap NodeId ℚ} (h : g.Distributed scores) (v : NodeId) :
    0 ≤ valueAt scores v := by
  unfold valueAt
  cases hv : scores.lookup v with
  | none => exact le_rfl
  | some score => exact h.nonneg v score hv

lemma Adjacent.distributed_initial (h : g.Adjacent) (hne : g.nodeIds ≠ []) : g.Distributed g.initialScores where
  mem_iff := mem_tabulate _ _
  nonneg v score hv := by
    rw [initialScores, lookup_tabulate] at hv
    split at hv
    · rw [← Option.some.inj hv]
      positivity
    · cases hv
  total := by
    have hn : (g.nodeIds.length : ℚ) ≠ 0 := by
      simpa using hne
    have hvalues : g.nodeIds.map (valueAt g.initialScores) = g.nodeIds.map fun _ => 1 / (g.nodeIds.length : ℚ) :=
      List.map_congr_left fun v hv => valueAt_tabulate _ hv
    rw [total_eq g.initialScores h.nodup_nodeIds (mem_tabulate _ _), hvalues, List.map_const', List.sum_replicate, nsmul_eq_mul,
      mul_one_div_cancel hn]

lemma Adjacent.mem_iteration (h : g.Adjacent) (d : Division) (damping : ℚ) (scores : HashMap NodeId ℚ)
    (v : NodeId) : v ∈ g.pagerankIteration d damping scores ↔ v ∈ g.nodeIds := by
  rw [← AList.lookup_isSome, h.lookup_iteration]
  split <;> simp [*]

/-- One iteration conserves the mass. -/
lemma Distributed.iteration {scores : HashMap NodeId ℚ} (hscores : g.Distributed scores) (h : g.Adjacent)
    (hne : g.nodeIds ≠ []) (d : Division) {damping : ℚ} (hlow : 0 ≤ damping) (hhigh : damping ≤ 1) :
    g.Distributed (g.pagerankIteration d damping scores) where
  mem_iff := h.mem_iteration d damping scores
  nonneg v score hv := by
    rw [h.lookup_iteration] at hv
    split at hv
    · rw [← Option.some.inj hv]
      exact update_nonneg hlow hhigh (fun u _ => hscores.valueAt_nonneg u) v
    · cases hv
  total := by
    have hsum : (g.nodeIds.map (valueAt scores)).sum = 1 :=
      (total_eq _ h.nodup_nodeIds hscores.mem_iff).symm.trans hscores.total
    have hvalues : g.nodeIds.map (valueAt (g.pagerankIteration d damping scores)) =
        g.nodeIds.map (g.update damping (valueAt scores)) := by
      refine List.map_congr_left fun v hv => ?_
      rw [valueAt, h.lookup_iteration, if_pos hv, Option.getD_some]
    rw [total_eq _ h.nodup_nodeIds (h.mem_iteration d damping scores), hvalues, h.sum_update hne damping hsum]

lemma Adjacent.distributed_scoresAfter (h : g.Adjacent) (hne : g.nodeIds ≠ []) (d : Division) {damping : ℚ}
    (hlow : 0 ≤ damping) (hhigh : damping ≤ 1) (k : ℕ) : g.Distributed (g.scoresAfter d damping k) := by
  induction k with
  | zero => exact h.distributed_initial hne
  | succ k ih =>
    rw [scoresAfter, Function.iterate_succ_apply']
    exact ih.iteration h hne d hlow hhigh

/-- The loop returns the scores after the iterations that it counts. -/
lemma pagerankLoop_scores (d : Division) (g : Graph) (config : PageRankConfig) (rounds : ℕ) {r : PageRankResult}
    (hr : r.scores = g.scoresAfter d config.damping r.iterations) :
    let r' := g.pagerankLoop d config rounds r
    r'.scores = g.scoresAfter d config.damping r'.iterations ∧ r'.iterations ≤ r.iterations + rounds := by
  induction rounds generalizing r with
  | zero => exact ⟨hr, le_rfl⟩
  | succ rounds ih =>
    have hstep : g.pagerankIteration d config.damping r.scores =
        g.scoresAfter d config.damping (r.iterations + 1) := by
      rw [hr, scoresAfter, scoresAfter, Function.iterate_succ_apply']
    rw [pagerankLoop]
    dsimp only
    split
    · exact ⟨hstep, by dsimp only; omega⟩
    · obtain ⟨hscores, hiterations⟩ :=
        ih (r := ⟨g.pagerankIteration d config.damping r.scores, r.iterations + 1, r.converged⟩) hstep
      refine ⟨hscores, hiterations.trans ?_⟩
      dsimp only
      omega

/-- PageRank conserves mass: the scores that it returns are those after the iterations that it counts, and after every
iteration each node has a score, none is negative, they add up to one, and the next iteration applies the linear update
to each of them. -/
theorem pagerank_conserves_mass (g : Graph) (d : Division) (config : PageRankConfig) (hg : g.Built)
    (hne : g.nodeIds ≠ []) (hlow : 0 ≤ config.damping) (hhigh : config.damping ≤ 1) :
    (g.pagerank d config).scores = g.scoresAfter d config.damping (g.pagerank d config).iterations ∧
    (g.pagerank d config).iterations ≤ config.maxIterations ∧
    ∀ k, g.Distributed (g.scoresAfter d config.damping k) ∧
      ∀ v ∈ g.nodeIds, (g.scoresAfter d config.damping (k + 1)).lookup v =
        some (g.update config.damping (valueAt (g.scoresAfter d config.damping k)) v) := by
  have h := hg.adjacent
  have hlength : g.nodeIds.length ≠ 0 := fun hzero => hne (List.length_eq_zero_iff.mp hzero)
  have hloop := pagerankLoop_scores d g config config.maxIterations (r := ⟨g.initialScores, 0, false⟩) rfl
  rw [pagerank, if_neg hlength]
  refine ⟨hloop.1, by simpa using hloop.2, fun k => ⟨h.distributed_scoresAfter hne d hlow hhigh k, fun v hv => ?_⟩⟩
  rw [scoresAfter, Function.iterate_succ_apply', h.lookup_iteration, if_pos hv]
  rfl

/-- A page that links to itself and to a page without links. -/
def twoPages : Graph :=
  ofCalls [.createNodeWithLabels ["Page"], .createNodeWithLabels ["Page"], .createEdge 0 0 "LINKS",
    .createEdge 0 1 "LINKS"]

theorem pagerank_conserves_mass_twoPages :
    (twoPages.pagerank .whole ⟨1 / 2, 1, 0⟩).scores =
      twoPages.scoresAfter .whole (1 / 2) (twoPages.pagerank .whole ⟨1 / 2, 1, 0⟩).iterations ∧
    (twoPages.pagerank .whole ⟨1 / 2, 1, 0⟩).iterations ≤ 1 ∧
    ∀ k, twoPages.Distributed (twoPages.scoresAfter .whole (1 / 2) k) ∧
      ∀ v ∈ twoPages.nodeIds, (twoPages.scoresAfter .whole (1 / 2) (k + 1)).lookup v =
        some (twoPages.update (1 / 2) (valueAt (twoPages.scoresAfter .whole (1 / 2) k)) v) :=
  pagerank_conserves_mass twoPages .whole ⟨1 / 2, 1, 0⟩ (built_ofCalls _ (by decide)) (by decide) (by norm_num)
    (by norm_num)

end Graph

end Maharit
